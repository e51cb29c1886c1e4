import Mathlib

/-!
Texts that are read apart inside longer texts. A piece ends where nothing or a stop
character follows it. A pair of pieces is legible for a statement when the two, each
continued in any way, are equal only if the statement holds and they are continued alike.
Legible pairs stay legible after a common start, before a stop character, and as the items
of two bracketed sequences.
-/
namespace SpecGate.DelimitedTexts

variable {γ : Type*} {stop : γ → Prop} {P Q : Prop} {left right other other' : List γ} {c d : γ}

def Ends (stop : γ → Prop) (rest : List γ) : Prop := ∀ c ∈ rest.head?, stop c

theorem ends_nil : Ends stop [] := by
  intro c hc
  cases hc

theorem ends_cons (h : stop c) (rest : List γ) : Ends stop (c :: rest) := by
  intro d hd
  cases hd
  exact h

/-- Continued where a piece ends, the two texts are equal only if the statement holds. -/
def Legible (stop : γ → Prop) (P : Prop) (left right : List γ) : Prop :=
  ∀ r s, Ends stop r → Ends stop s → left ++ r = right ++ s → P ∧ r = s

namespace Legible

theorem imp (h : Legible stop P left right) (hPQ : P → Q) : Legible stop Q left right := by
  intro r s hr hs heq
  obtain ⟨hP, hrest⟩ := h r s hr hs heq
  exact ⟨hPQ hP, hrest⟩

theorem of_eq (h : Legible stop P left right) (heq : left = right) : P :=
  (h [] [] ends_nil ends_nil (by rw [heq])).1

theorem cons (c : γ) (h : Legible stop P left right) : Legible stop P (c :: left) (c :: right) := by
  intro r s hr hs heq
  exact h r s hr hs (List.cons.inj heq).2

theorem after (front : List γ) (h : Legible stop P left right) :
    Legible stop P (front ++ left) (front ++ right) := by
  intro r s hr hs heq
  rw [List.append_assoc, List.append_assoc] at heq
  exact h r s hr hs (List.append_cancel_left heq)

/-- One piece after another, with a stop character between them. -/
theorem append (h : Legible stop P left right) (hstop : stop c)
    (hother : Legible stop Q other other') :
    Legible stop (P ∧ Q) (left ++ c :: other) (right ++ c :: other') := by
  intro r s hr hs heq
  rw [List.append_assoc, List.append_assoc] at heq
  obtain ⟨hP, hrest⟩ := h _ _ (ends_cons hstop _) (ends_cons hstop _) heq
  obtain ⟨hQ, hrest⟩ := hother r s hr hs (List.cons.inj hrest).2
  exact ⟨⟨hP, hQ⟩, hrest⟩

theorem close (h : Legible stop P left right) (hstop : stop c) :
    Legible stop P (left ++ [c]) (right ++ [c]) := by
  intro r s _ _ heq
  rw [List.append_assoc, List.append_assoc] at heq
  obtain ⟨hP, hrest⟩ := h _ _ (ends_cons hstop _) (ends_cons hstop _) heq
  exact ⟨hP, (List.cons.inj hrest).2⟩

end Legible

theorem legible_nil : Legible stop True ([] : List γ) [] :=
  fun _ _ _ _ heq => ⟨trivial, heq⟩

theorem legible_of_heads (hne : c ≠ d) : Legible stop P (c :: left) (d :: right) :=
  fun _ _ _ _ heq => absurd (List.cons.inj heq).1 hne

/-- Words without stop characters are read apart. -/
theorem legible_words (hleft : ∀ c ∈ left, ¬ stop c) (hright : ∀ c ∈ right, ¬ stop c) :
    Legible stop (left = right) left right := by
  induction left generalizing right with
  | nil =>
    cases right with
    | nil => exact legible_nil.imp fun _ => rfl
    | cons d right =>
      intro r s hr _ heq
      obtain rfl : r = d :: (right ++ s) := heq
      exact absurd (hr d rfl) (hright d List.mem_cons_self)
  | cons c left ih =>
    cases right with
    | nil =>
      intro r s _ hs heq
      obtain rfl : c :: (left ++ r) = s := heq
      exact absurd (hs c rfl) (hleft c List.mem_cons_self)
    | cons d right =>
      intro r s hr hs heq
      rw [List.cons_append, List.cons_append, List.cons.injEq] at heq
      obtain ⟨rfl, heq⟩ := heq
      obtain ⟨rfl, hrest⟩ := ih (fun e he => hleft e (List.mem_cons_of_mem _ he))
        (fun e he => hright e (List.mem_cons_of_mem _ he)) r s hr hs heq
      exact ⟨rfl, hrest⟩

/-! ### Sequences -/

variable {α β : Type*} {f : α → List γ} {g : β → List γ} {sep final : γ}

/-- The items with a separator between them, and the closing character. -/
def sequence (sep final : γ) (f : α → List γ) (items : List α) : List γ :=
  [sep].intercalate (items.map f) ++ [final]

theorem sequence_singleton (item : α) : sequence sep final f [item] = f item ++ [final] := by
  rw [sequence, List.map_singleton, List.intercalate_singleton]

theorem sequence_cons_cons (item next : α) (rest : List α) :
    sequence sep final f (item :: next :: rest) =
      f item ++ sep :: sequence sep final f (next :: rest) := by
  rw [sequence, sequence, List.map_cons, List.map_cons, List.intercalate_cons_cons,
    List.append_assoc, List.append_assoc, List.singleton_append]

/-- Sequences are read apart when their items are, position by position, and only both or
none of them is empty. -/
theorem legible_sequence (R : α → β → Prop) (hsep : stop sep) (hfinal : stop final) (hne : sep ≠ final)
    {xs : List α} {ys : List β} (hempty : xs = [] ↔ ys = [])
    (hitems : ∀ pair ∈ xs.zip ys, Legible stop (R pair.1 pair.2) (f pair.1) (g pair.2)) :
    Legible stop (List.Forall₂ R xs ys) (sequence sep final f xs) (sequence sep final g ys) := by
  induction xs generalizing ys with
  | nil =>
    obtain rfl := hempty.mp rfl
    exact fun _ _ _ _ heq => ⟨.nil, (List.cons.inj heq).2⟩
  | cons x xs ih =>
    cases ys with
    | nil => exact absurd (hempty.mpr rfl) (List.cons_ne_nil _ _)
    | cons y ys =>
      have hhead := hitems (x, y) List.mem_cons_self
      cases xs with
      | nil =>
        cases ys with
        | nil =>
          rw [sequence_singleton, sequence_singleton]
          exact (hhead.close hfinal).imp fun hxy => .cons hxy .nil
        | cons y' ys =>
          rw [sequence_singleton, sequence_cons_cons]
          intro r s _ _ heq
          rw [List.append_assoc, List.append_assoc] at heq
          obtain ⟨-, hrest⟩ := hhead _ _ (ends_cons hfinal _) (ends_cons hsep _) heq
          exact absurd (List.cons.inj hrest).1.symm hne
      | cons x' xs =>
        cases ys with
        | nil =>
          rw [sequence_singleton, sequence_cons_cons]
          intro r s _ _ heq
          rw [List.append_assoc, List.append_assoc] at heq
          obtain ⟨-, hrest⟩ := hhead _ _ (ends_cons hsep _) (ends_cons hfinal _) heq
          exact absurd (List.cons.inj hrest).1 hne
        | cons y' ys =>
          rw [sequence_cons_cons, sequence_cons_cons]
          have hrest := @ih (y' :: ys) (by simp) fun pair hpair =>
            hitems pair (List.mem_cons_of_mem _ hpair)
          exact (hhead.append hsep hrest).imp fun h => .cons h.1 h.2

/-- A text that does not begin with the closing character of a sequence. -/
def Opens (final : γ) (text : List γ) : Prop := ∃ c rest, text = c :: rest ∧ c ≠ final

theorem Opens.append {text : List γ} (h : Opens final text) (rest : List γ) :
    Opens final (text ++ rest) := by
  obtain ⟨c, others, rfl, hc⟩ := h
  exact ⟨c, others ++ rest, rfl, hc⟩

theorem opens_sequence {items : List α} (hitems : items ≠ [])
    (h : ∀ item ∈ items, Opens final (f item)) : Opens final (sequence sep final f items) := by
  match items, hitems with
  | [item], _ =>
    rw [sequence_singleton]
    exact (h item List.mem_cons_self).append _
  | item :: next :: rest, _ =>
    rw [sequence_cons_cons]
    exact (h item List.mem_cons_self).append _

/-- Where no item begins with the closing character, an empty sequence shows. -/
theorem legible_items (R : α → β → Prop) (hsep : stop sep) (hfinal : stop final) (hne : sep ≠ final)
    {xs : List α} {ys : List β} (hxs : ∀ x ∈ xs, Opens final (f x))
    (hys : ∀ y ∈ ys, Opens final (g y))
    (hitems : ∀ pair ∈ xs.zip ys, Legible stop (R pair.1 pair.2) (f pair.1) (g pair.2)) :
    Legible stop (List.Forall₂ R xs ys) (sequence sep final f xs) (sequence sep final g ys) := by
  by_cases hempty : xs = [] ↔ ys = []
  · exact legible_sequence R hsep hfinal hne hempty hitems
  · intro r s _ _ heq
    exfalso
    by_cases hnil : xs = []
    · have hcons : ys ≠ [] := fun h => hempty ⟨fun _ => h, fun _ => hnil⟩
      obtain ⟨c, rest, htext, hc⟩ := opens_sequence hcons hys
      rw [hnil, htext] at heq
      exact hc (List.cons.inj heq).1.symm
    · have hother : ys = [] := by
        by_contra h
        exact hempty ⟨fun hx => absurd hx hnil, fun hy => absurd hy h⟩
      obtain ⟨c, rest, htext, hc⟩ := opens_sequence hnil hxs
      rw [hother, htext] at heq
      exact hc (List.cons.inj heq).1

end SpecGate.DelimitedTexts
