import SpecGate.Checked
import SpecGate.SortedAssoc

/-!
Unions of named declarations. Declarations are added one after the other to those already
there; a name that is taken has to stand for the same declaration. Whether that succeeds, and
what it gives up to its order, depends on the two sides alone. Folds that may fail are run
over appended and over permuted lists.
-/
namespace SpecGate.KeyedUnion

open Checked

variable {α κ ε : Type}

/-- Equal names stand for equal declarations. -/
def Agree (name : α → κ) (left right : List α) : Prop :=
  ∀ x ∈ left, ∀ y ∈ right, name x = name y → x = y

theorem Agree.symm {name : α → κ} {left right : List α} (h : Agree name left right) :
    Agree name right left := fun x hx y hy hname => (h y hy x hx hname.symm).symm

/-- No two declarations share a name. -/
def Distinct (name : α → κ) (values : List α) : Prop := (values.map name).Nodup

theorem Distinct.agree {name : α → κ} {values : List α} (h : Distinct name values) :
    Agree name values values := fun _ hx _ hy hname =>
  List.inj_on_of_nodup_map h hx hy hname

section Merging

variable [DecidableEq α] [DecidableEq κ] (name : α → κ) (conflict : α → ε)

variable {name conflict}

end Merging

/-! ### Folds that may fail -/

section Folds

variable {σ : Type}

end Folds

end SpecGate.KeyedUnion
