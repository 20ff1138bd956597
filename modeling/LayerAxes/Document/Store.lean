import LayerAxes.Document.Fields
import LayerAxes.Record.Source
import LayerAxes.Store.Basic

/-!
# Stores and settings as documents

How the descriptors of a catalog, the names of auxiliary tables, and the settings
are read from documents and written to them.
-/

namespace LayerAxes

namespace Descriptor

def fieldNames : List String :=
  ["name", "start_attribute", "end_attribute", "units"]

def ofJson? (j : Json) : Option Descriptor := do
  let field <- j.fields? fieldNames
  return {
    name := <- Json.required Json.string? (field "name")
    startAttribute := <- Json.required Json.string? (field "start_attribute")
    endAttribute := <- Json.optional Json.string? (field "end_attribute")
    units := <- Json.optional Json.string? (field "units") }

def toJson (d : Descriptor) : Json :=
  .object [
    ("name", .string d.name),
    ("start_attribute", .string d.startAttribute),
    ("end_attribute", Json.ofOption .string d.endAttribute),
    ("units", Json.ofOption .string d.units)]

end Descriptor

namespace AuxiliaryTables

def fieldNames : List String :=
  ["metadata_table", "metadata_foreign_key", "link_table", "link_foreign_key"]

def ofJson? (j : Json) : Option AuxiliaryTables := do
  let field <- j.fields? fieldNames
  return {
    metadataTable := <- Json.required Json.string? (field "metadata_table")
    metadataForeignKey := <- Json.required Json.string? (field "metadata_foreign_key")
    linkTable := <- Json.required Json.string? (field "link_table")
    linkForeignKey := <- Json.required Json.string? (field "link_foreign_key") }

def toJson (tables : AuxiliaryTables) : Json :=
  .object [
    ("metadata_table", .string tables.metadataTable),
    ("metadata_foreign_key", .string tables.metadataForeignKey),
    ("link_table", .string tables.linkTable),
    ("link_foreign_key", .string tables.linkForeignKey)]

end AuxiliaryTables

namespace Settings

def fieldNames : List String :=
  ["max_histogram_buckets", "interval_separator"]

def ofFields? (separator? : Json -> Option String) (j : Json) : Option Settings := do
  let field <- j.fields? fieldNames
  let standard : Settings := {}
  return {
    maxHistogramBuckets :=
      <- Json.defaulted standard.maxHistogramBuckets Json.count? (field "max_histogram_buckets")
    intervalSeparator :=
      <- Json.defaulted standard.intervalSeparator separator? (field "interval_separator") }

def ofJson? (j : Json) : Option Settings :=
  ofFields? Json.string? j

def toJson (settings : Settings) : Json :=
  .object [
    ("max_histogram_buckets", Json.ofNat settings.maxHistogramBuckets),
    ("interval_separator", .string settings.intervalSeparator)]

end Settings

end LayerAxes
