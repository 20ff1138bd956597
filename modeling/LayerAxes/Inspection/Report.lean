import LayerAxes.Dimension.Basic
import LayerAxes.Document.Layer
import LayerAxes.Json.Writer

/-!
# Reports

What an inspection tells about dimensions, and how it is written as a document.
-/

namespace LayerAxes

structure DimensionSummary where
  layer : String
  dimension : String
  store : String
  presentation : Presentation
  defaultValue : Option String
deriving DecidableEq, Repr

structure DomainReport where
  layer : String
  dimension : String
  values : List String
  bounds : Option Envelope
  representation : List String
deriving DecidableEq, Repr

structure DefaultReport where
  layer : String
  dimension : String
  strategy : Strategy
  value : Option String
deriving DecidableEq, Repr

def DimensionSummary.toJson (summary : DimensionSummary) : Json :=
  .object [
    ("layer", .string summary.layer),
    ("dimension", .string summary.dimension),
    ("store", .string summary.store),
    ("presentation", summary.presentation.toJson),
    ("default_value", Json.ofOption .string summary.defaultValue)]

def Envelope.toJson (e : Envelope) : Json :=
  .object [
    ("min_x", Json.ofBinary64 e.minX),
    ("min_y", Json.ofBinary64 e.minY),
    ("max_x", Json.ofBinary64 e.maxX),
    ("max_y", Json.ofBinary64 e.maxY)]

def DomainReport.toJson (report : DomainReport) : Json :=
  .object [
    ("layer", .string report.layer),
    ("dimension", .string report.dimension),
    ("values", Json.ofStrings report.values),
    ("bounds", Json.ofOption Envelope.toJson report.bounds),
    ("representation", Json.ofStrings report.representation)]

def Histogram.toJson (h : Histogram) : Json :=
  .object [
    ("domain", .string h.domain),
    ("counts", .array (h.counts.map Json.ofNat))]

def DefaultReport.toJson (report : DefaultReport) : Json :=
  .object [
    ("layer", .string report.layer),
    ("dimension", .string report.dimension),
    ("strategy", report.strategy.toJson),
    ("value", Json.ofOption .string report.value)]

end LayerAxes
