import SubstrateClient.Lib.Codec

/-!
# The type registry

The portable form of `scale_info`: a table of types that refer to one another by index, so the
references may form cycles. Of a type the client reads its path and its definition; of a field its
type; of a variant its name, its fields, its declared index and its documentation. Type parameters,
field names and the documentation of types are read by no modelled function and are left out.
-/

namespace SubstrateClient.Node

open SubstrateClient.Lib

/-- An index into the registry. -/
abbrev TypeId := UInt32

/-- `TypeDefPrimitive`. -/
inductive TypeDefPrimitive where
  | bool | char | str
  | u8 | u16 | u32 | u64 | u128 | u256
  | i8 | i16 | i32 | i64 | i128 | i256
  deriving DecidableEq, Repr

/-- `Field`. -/
structure Field where
  ty : TypeId
  deriving DecidableEq, Repr

/-- `Variant`: `index` is the declared index, not the position. -/
structure Variant where
  name : String
  fields : List Field
  index : UInt8
  docs : List String
  deriving DecidableEq, Repr

/-- `TypeDef`. -/
inductive TypeDef where
  | composite (fields : List Field)
  | variant (variants : List Variant)
  | sequence (typeParam : TypeId)
  | array (len : UInt32) (typeParam : TypeId)
  | tuple (fields : List TypeId)
  | primitive (p : TypeDefPrimitive)
  | compact (typeParam : TypeId)
  | bitSequence (bitStoreType bitOrderType : TypeId)
  deriving DecidableEq, Repr

/-- `Type`: the segments of its path and its definition. -/
structure Ty where
  path : List String
  typeDef : TypeDef
  deriving DecidableEq, Repr

/-- `Path::ident`: the last segment. -/
def Ty.ident (ty : Ty) : Option String := ty.path.getLast?

/-- `PortableRegistry`. -/
structure PortableRegistry where
  types : List Ty
  deriving DecidableEq, Repr

/-- `PortableRegistry::resolve`. -/
def PortableRegistry.resolve (reg : PortableRegistry) (id : TypeId) : Option Ty :=
  reg.types[id.toNat]?

end SubstrateClient.Node
