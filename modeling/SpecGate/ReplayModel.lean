import SpecGate.CanonicalOrder

/-!
The replay planner's data: the wire documents it reads, the declarations of a registry
that replay needs, and the decoded values. A wire value keeps numbers and bytes as the
texts they were written in. The order of decoded values is the derived one: the variant
first, then its contents.
-/
namespace SpecGate.ReplayModel

open Values CanonicalOrder

/-! ### Wire documents -/

inductive DoubleValue where
  | number (value : FiniteF64)
  | symbol (text : String)

inductive AnyValue where
  | string (value : String)
  | bool (value : Bool)
  | int (text : String)
  | double (value : DoubleValue)
  | bytes (text : String)
  | array (values : List AnyValue)
  | kvlist (entries : List (String × AnyValue))

abbrev KeyValues := List (String × AnyValue)

structure Event where
  name : String
  attributes : KeyValues

structure Span where
  traceId : String
  spanId : String
  parentSpanId : String
  name : String
  startTimeUnixNano : String
  endTimeUnixNano : String
  attributes : KeyValues
  events : List Event

structure ResourceSpans where
  attributes : KeyValues
  scopeSpans : List (List Span)

structure OtlpDoc where
  resourceSpans : List ResourceSpans

/-! ### Declarations -/

structure TypeOwner where
  componentId : Option String
  registryId : Option String
  deriving DecidableEq

inductive ReplayType where
  | primitive (name : String)
  | named (name : String) (owner : TypeOwner)
  | collection (items : ReplayType) (ordered unique : Bool)
  | map (keys values : ReplayType) (ordered : Bool)
  | tuple (items : List ReplayType)
  | optional (value : ReplayType)
  | record (fields : List (String × ReplayType))

namespace ReplayType

def kindName : ReplayType → String
  | primitive _ => "primitive"
  | named _ _ => "named"
  | collection _ _ _ => "collection"
  | map _ _ _ => "map"
  | tuple _ => "tuple"
  | optional _ => "optional"
  | record _ => "record"

def primitiveName : ReplayType → Option String
  | primitive name => some name
  | _ => none

end ReplayType

abbrev RegistryInput := String × ReplayType

structure Outcome where
  name : String
  valueType : Option ReplayType

/-- One operation that replay can invoke, under its component. -/
structure RegistryOp where
  componentId : String
  name : String
  inputs : List RegistryInput
  output : Option ReplayType
  empty : Bool
  errors : List Outcome

structure RegistryIdentity where
  id : String
  version : String
  digest : String

structure Registry where
  identity : RegistryIdentity
  operations : List RegistryOp

/-! ### Values -/

inductive Value where
  | unit
  | string (value : String)
  | bool (value : Bool)
  | i32 (value : Int)
  | i64 (value : Int)
  | u32 (value : Int)
  | u64 (value : Int)
  | f32Bits (bits : Nat)
  | f64Bits (bits : Nat)
  | list (values : List Value)
  | set (values : List Value)
  | map (entries : List (String × Value))
  | mapEntries (entries : List (Value × Value))
  | tuple (values : List Value)
  | optional (value : Option Value)

namespace Value

mutual

/-- Where a value stands in the derived order: the place of its variant, then its
contents in the order of sequences. -/
def sortKey : Value → CanonicalValue
  | unit => .tuple [.integer 0]
  | string value => .tuple [.integer 1, .string value]
  | bool value => .tuple [.integer 2, .bool value]
  | i32 value => .tuple [.integer 3, .integer value]
  | i64 value => .tuple [.integer 4, .integer value]
  | u32 value => .tuple [.integer 5, .integer value]
  | u64 value => .tuple [.integer 6, .integer value]
  | f32Bits bits => .tuple [.integer 7, .integer bits]
  | f64Bits bits => .tuple [.integer 8, .integer bits]
  | list values => .tuple [.integer 9, .list (sortKeys values)]
  | set values => .tuple [.integer 10, .list (sortKeys values)]
  | map entries => .tuple [.integer 11, .record (fieldKeys entries)]
  | mapEntries entries => .tuple [.integer 12, .map (entryKeys entries)]
  | tuple values => .tuple [.integer 13, .list (sortKeys values)]
  | optional none => .tuple [.integer 14]
  | optional (some value) => .tuple [.integer 14, sortKey value]
termination_by structural value => value

def sortKeys : List Value → List CanonicalValue
  | [] => []
  | value :: rest => sortKey value :: sortKeys rest
termination_by structural values => values

def fieldKeys : List (String × Value) → List (String × CanonicalValue)
  | [] => []
  | (key, value) :: rest => (key, sortKey value) :: fieldKeys rest
termination_by structural fields => fields

def entryKeys : List (Value × Value) → List (CanonicalValue × CanonicalValue)
  | [] => []
  | (key, value) :: rest => (sortKey key, sortKey value) :: entryKeys rest
termination_by structural entries => entries

end

mutual

theorem sortKey_injective : ∀ a b : Value, sortKey a = sortKey b → a = b
  | unit, b, h => by cases b with
    | optional value => cases value <;> simp [sortKey] at h
    | _ => first | rfl | simp [sortKey] at h
  | string _, b, h => by cases b with
    | optional value => cases value <;> simp [sortKey] at h
    | _ => simp_all [sortKey]
  | bool _, b, h => by cases b with
    | optional value => cases value <;> simp [sortKey] at h
    | _ => simp_all [sortKey]
  | i32 _, b, h => by cases b with
    | optional value => cases value <;> simp [sortKey] at h
    | _ => simp_all [sortKey]
  | i64 _, b, h => by cases b with
    | optional value => cases value <;> simp [sortKey] at h
    | _ => simp_all [sortKey]
  | u32 _, b, h => by cases b with
    | optional value => cases value <;> simp [sortKey] at h
    | _ => simp_all [sortKey]
  | u64 _, b, h => by cases b with
    | optional value => cases value <;> simp [sortKey] at h
    | _ => simp_all [sortKey]
  | f32Bits bits, b, h => by cases b with
    | optional value => cases value <;> simp [sortKey] at h
    | f32Bits other => exact congrArg f32Bits (Int.natCast_inj.mp (by simpa [sortKey] using h))
    | _ => simp [sortKey] at h
  | f64Bits bits, b, h => by cases b with
    | optional value => cases value <;> simp [sortKey] at h
    | f64Bits other => exact congrArg f64Bits (Int.natCast_inj.mp (by simpa [sortKey] using h))
    | _ => simp [sortKey] at h
  | list as, b, h => by cases b with
    | optional value => cases value <;> simp [sortKey] at h
    | list bs => rw [sortKeys_injective as bs (by simpa [sortKey] using h)]
    | _ => simp [sortKey] at h
  | set as, b, h => by cases b with
    | optional value => cases value <;> simp [sortKey] at h
    | set bs => rw [sortKeys_injective as bs (by simpa [sortKey] using h)]
    | _ => simp [sortKey] at h
  | map as, b, h => by cases b with
    | optional value => cases value <;> simp [sortKey] at h
    | map bs => rw [fieldKeys_injective as bs (by simpa [sortKey] using h)]
    | _ => simp [sortKey] at h
  | mapEntries as, b, h => by cases b with
    | optional value => cases value <;> simp [sortKey] at h
    | mapEntries bs => rw [entryKeys_injective as bs (by simpa [sortKey] using h)]
    | _ => simp [sortKey] at h
  | tuple as, b, h => by cases b with
    | optional value => cases value <;> simp [sortKey] at h
    | tuple bs => rw [sortKeys_injective as bs (by simpa [sortKey] using h)]
    | _ => simp [sortKey] at h
  | optional none, b, h => by cases b with
    | optional value => cases value <;> simp [sortKey] at h ⊢
    | _ => simp [sortKey] at h
  | optional (some a), b, h => by cases b with
    | optional value =>
      cases value with
      | none => simp [sortKey] at h
      | some b => rw [sortKey_injective a b (by simpa [sortKey] using h)]
    | _ => simp [sortKey] at h

theorem sortKeys_injective : ∀ as bs : List Value, sortKeys as = sortKeys bs → as = bs
  | [], [], _ => rfl
  | [], _ :: _, h => by simp [sortKeys] at h
  | _ :: _, [], h => by simp [sortKeys] at h
  | a :: as, b :: bs, h => by
      simp only [sortKeys, List.cons.injEq] at h
      rw [sortKey_injective a b h.1, sortKeys_injective as bs h.2]

theorem fieldKeys_injective : ∀ as bs : List (String × Value), fieldKeys as = fieldKeys bs → as = bs
  | [], [], _ => rfl
  | [], _ :: _, h => by simp [fieldKeys] at h
  | _ :: _, [], h => by simp [fieldKeys] at h
  | (k, a) :: as, (l, b) :: bs, h => by
      simp only [fieldKeys, List.cons.injEq, Prod.mk.injEq] at h
      rw [h.1.1, sortKey_injective a b h.1.2, fieldKeys_injective as bs h.2]

theorem entryKeys_injective : ∀ as bs : List (Value × Value), entryKeys as = entryKeys bs → as = bs
  | [], [], _ => rfl
  | [], _ :: _, h => by simp [entryKeys] at h
  | _ :: _, [], h => by simp [entryKeys] at h
  | (k, a) :: as, (l, b) :: bs, h => by
      simp only [entryKeys, List.cons.injEq, Prod.mk.injEq] at h
      rw [sortKey_injective k l h.1.1, sortKey_injective a b h.1.2, entryKeys_injective as bs h.2]

end

instance : Ord Value := ⟨fun a b => compare (sortKey a) (sortKey b)⟩

instance : Std.TransOrd Value where
  eq_swap := Std.OrientedOrd.eq_swap (α := CanonicalValue)
  isLE_trans {a b c} := @Std.TransCmp.isLE_trans CanonicalValue compare inferInstance
    (sortKey a) (sortKey b) (sortKey c)

instance : Std.LawfulEqOrd Value where
  compare_self := Std.ReflOrd.compare_self (α := CanonicalValue)
  eq_of_compare h := sortKey_injective _ _ (Std.LawfulEqOrd.eq_of_compare h)

instance : DecidableEq Value := fun _ _ =>
  decidable_of_iff _ Std.LawfulEqOrd.compare_eq_iff_eq

end Value

/-! ### Failures -/

/-- A replay failure: a message, or a schedule that sequential replay cannot reproduce,
which callers tell apart by its cause. -/
inductive Error where
  | message (diagnostic : String)
  | json (diagnostic source : String)
  | scheduling (diagnostic : String)
  deriving DecidableEq

inductive Failure where
  | error (error : Error)
  | panic (message : String)
  deriving DecidableEq

def message (diagnostic : String) : Failure := .error (.message diagnostic)

def scheduling (diagnostic : String) : Failure := .error (.scheduling diagnostic)

end SpecGate.ReplayModel
