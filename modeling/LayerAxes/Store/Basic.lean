import LayerAxes.NameMap
import LayerAxes.Store.Source

/-!
# Stores behind layers

A layer is kept in a structured catalog, in the metadata of a flat raster, or
in a vector source.
-/

namespace LayerAxes

/-!
# Granule catalogs

A structured store is a catalog of coverages with one row per granule.  Its
descriptors say which attributes of the rows hold a dimension.
-/

structure Descriptor where
  name : String
  startAttribute : String
  endAttribute : Option String := none
  units : Option String := none
deriving DecidableEq, Repr

/-- A catalog of coverages; the first coverage is the one that is read. -/
structure GranuleCatalog where
  coverages : Answer (List String)
  descriptors : String -> Answer (List Descriptor)
  schema : String -> Answer Schema
  granules : String -> Query -> Answer (List Feature)

structure Coverage where
  name : String
  descriptors : List Descriptor
  granules : FeatureTable

namespace Coverage

def answer {α : Type} (coverage : Coverage) (name : String) (a : Answer α) : Answer α :=
  if name = coverage.name then a
  else .error (.store s!"unknown coverage '{name}'")

def catalog (coverage : Coverage) : GranuleCatalog :=
  { coverages := .ok [coverage.name]
    descriptors := fun name => coverage.answer name (.ok coverage.descriptors)
    schema := fun name => coverage.answer name (.ok coverage.granules.schema)
    granules := fun name q => coverage.answer name (coverage.granules.run q) }

end Coverage

/-!
# Stores
-/

structure MetadataSource where
  value : String -> Answer (Option String)

def MetadataSource.ofMap (entries : NameMap String) : MetadataSource :=
  { value := fun key => .ok (entries.find? key) }

inductive Store where
  | structured (catalog : GranuleCatalog)
  | flat (source : MetadataSource)
  | vector (source : FeatureSource)

def Store.variant : Store -> String
  | structured _ => "structured"
  | flat _ => "flat_metadata"
  | vector _ => "vector"

end LayerAxes
