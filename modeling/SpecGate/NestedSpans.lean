import Mathlib

/-!
A log of spans that open and close in stack order. Of the events nothing is assumed but
that each comes later than all before it. Then spans of one parent do not overlap, and
every span lies inside its parent.
-/
namespace SpecGate.NestedSpans

variable {E : Type*}

structure Span (E : Type*) where
  parent : Option Nat
  start : E
  marks : List E
  finish : Option E

def Span.events (span : Span E) : List E := span.start :: (span.marks ++ span.finish.toList)

/-- All events in the order they happened, the spans in the order they opened, and the
open spans, the innermost first. -/
structure Log (E : Type*) where
  history : List E
  spans : List (Span E)
  stack : List Nat

def Log.empty : Log E := ⟨[], [], []⟩

/-- New events come later than all before them, and in order. -/
def Later (R : E → E → Prop) (history new : List E) : Prop :=
  new.Pairwise R ∧ ∀ old ∈ history, ∀ e ∈ new, R old e

def Span.mark (mark : E) (span : Span E) : Span E := { span with marks := span.marks ++ [mark] }

def Span.close (last : List E) (finish : E) (span : Span E) : Span E :=
  { span with marks := span.marks ++ last, finish := some finish }

inductive Step (R : E → E → Prop) : Log E → Log E → Prop
  | begin {log : Log E} {start : E} (hlater : Later R log.history [start]) :
      Step R log ⟨log.history ++ [start], log.spans ++ [⟨log.stack.head?, start, [], none⟩],
        log.spans.length :: log.stack⟩
  | mark {log : Log E} {index : Nat} {rest : List Nat} {mark : E}
      (hstack : log.stack = index :: rest) (hlater : Later R log.history [mark]) :
      Step R log ⟨log.history ++ [mark], log.spans.modify index (Span.mark mark), log.stack⟩
  | close {log : Log E} {index : Nat} {rest : List Nat} {last : List E} {finish : E}
      (hstack : log.stack = index :: rest) (hlater : Later R log.history (last ++ [finish])) :
      Step R log ⟨log.history ++ (last ++ [finish]),
        log.spans.modify index (Span.close last finish), rest⟩

/-- Every open span is a child of the next one below it. -/
def Chained (spans : List (Span E)) : List Nat → Prop
  | [] => True
  | index :: rest => (spans[index]?).map Span.parent = some rest.head? ∧ Chained spans rest

structure Nested (R : E → E → Prop) (log : Log E) : Prop where
  increasing : log.history.Pairwise R
  recorded : log.history.Perm (log.spans.flatMap Span.events)
  decreasing : log.stack.Pairwise (· > ·)
  bound : ∀ index ∈ log.stack, index < log.spans.length
  chained : Chained log.spans log.stack
  open_iff : ∀ {index : Nat} {span : Span E}, log.spans[index]? = some span →
    (index ∈ log.stack ↔ span.finish = none)
  inside : ∀ {index : Nat} {span : Span E}, log.spans[index]? = some span →
    span.events.Pairwise R
  within : ∀ {index parent : Nat} {span : Span E}, log.spans[index]? = some span →
    span.parent = some parent → parent < index ∧ ∃ outer, log.spans[parent]? = some outer ∧
      R outer.start span.start ∧ ∀ last, outer.finish = some last →
        ∃ finish, span.finish = some finish ∧ R finish last
  apart : ∀ {i j : Nat} {a b : Span E}, i < j → log.spans[i]? = some a →
    log.spans[j]? = some b → a.parent = b.parent → ∃ finish, a.finish = some finish ∧ R finish b.start

theorem nested_empty (R : E → E → Prop) : Nested R (Log.empty : Log E) where
  increasing := List.Pairwise.nil
  recorded := List.Perm.refl _
  decreasing := List.Pairwise.nil
  bound := by simp [Log.empty]
  chained := trivial
  open_iff := by simp [Log.empty]
  inside := by simp [Log.empty]
  within := by simp [Log.empty]
  apart := by simp [Log.empty]

theorem getElem?_modify_eq_some {α : Type*} {f : α → α} {values : List α} {index place : Nat}
    {value : α} : (values.modify index f)[place]? = some value ↔
      ∃ old, values[place]? = some old ∧ value = if index = place then f old else old := by
  rw [List.getElem?_modify]
  cases values[place]? with
  | none => simp
  | some old => simp [eq_comm]

/-- A change that a function does not see. -/
theorem map_modify_eq {α β : Type*} {f : α → α} {g : α → β} {values : List α} {index : Nat}
    (hf : ∀ value, g (f value) = g value) : (values.modify index f).map g = values.map g := by
  refine List.ext_getElem? fun place => ?_
  rw [List.getElem?_map, List.getElem?_map, List.getElem?_modify]
  cases values[place]? with
  | none => rfl
  | some value => by_cases hsame : index = place <;> simp [hsame, hf]

/-- What one changed element adds is added to the whole. -/
theorem flatMap_modify_perm {α β : Type*} {f : α → α} {g : α → List β} {new : List β}
    {values : List α} {index : Nat} {old : α} (hold : values[index]? = some old)
    (hnew : (g (f old)).Perm (g old ++ new)) :
    ((values.modify index f).flatMap g).Perm (values.flatMap g ++ new) := by
  induction values generalizing index with
  | nil => simp at hold
  | cons value rest ih =>
    cases index with
    | zero =>
      obtain rfl : value = old := by simpa using hold
      rw [List.modify_zero_cons, List.flatMap_cons, List.flatMap_cons]
      refine (hnew.append_right _).trans ?_
      rw [List.append_assoc, List.append_assoc]
      exact List.perm_append_comm.append_left _
    | succ index =>
      rw [List.modify_succ_cons, List.flatMap_cons, List.flatMap_cons, List.append_assoc]
      exact (ih (by simpa using hold)).append_left _

section Steps

variable {R : E → E → Prop} {log : Log E}

theorem Nested.mem_history (h : Nested R log) {index : Nat} {span : Span E}
    (hspan : log.spans[index]? = some span) {e : E} (he : e ∈ span.events) : e ∈ log.history :=
  h.recorded.mem_iff.mpr (List.mem_flatMap.mpr ⟨span, List.mem_of_getElem? hspan, he⟩)

theorem Nested.start_mem (h : Nested R log) {index : Nat} {span : Span E}
    (hspan : log.spans[index]? = some span) : span.start ∈ log.history :=
  h.mem_history hspan List.mem_cons_self

theorem Nested.finish_mem (h : Nested R log) {index : Nat} {span : Span E}
    (hspan : log.spans[index]? = some span) {finish : E} (hfinish : span.finish = some finish) :
    finish ∈ log.history :=
  h.mem_history hspan (by simp [Span.events, hfinish])

theorem chained_congr {spans spans' : List (Span E)} {stack : List Nat}
    (hspans : ∀ index ∈ stack, (spans'[index]?).map Span.parent = (spans[index]?).map Span.parent)
    (h : Chained spans stack) : Chained spans' stack := by
  induction stack with
  | nil => trivial
  | cons index rest ih =>
    exact ⟨(hspans index List.mem_cons_self).trans h.1,
      ih (fun other hother => hspans other (List.mem_cons_of_mem _ hother)) h.2⟩

/-- The innermost open span is the last one that opened. -/
theorem Nested.le_of_open (h : Nested R log) {top : Nat} {rest : List Nat}
    (hstack : log.stack = top :: rest) {index : Nat} (hindex : index ∈ log.stack) : index ≤ top := by
  have hdecreasing := h.decreasing
  rw [hstack] at hindex hdecreasing
  rcases List.mem_cons.mp hindex with rfl | hrest
  · exact Nat.le_refl _
  · exact Nat.le_of_lt ((List.pairwise_cons.mp hdecreasing).1 index hrest)

theorem Nested.exists_open (h : Nested R log) {index : Nat} (hindex : index ∈ log.stack) :
    ∃ span, log.spans[index]? = some span ∧ span.finish = none := by
  have hspan := List.getElem?_eq_getElem (h.bound index hindex)
  exact ⟨_, hspan, (h.open_iff hspan).mp hindex⟩

/-- Below the innermost open span nothing is open. -/
theorem Nested.closed_below_top (h : Nested R log) {index : Nat} {span : Span E}
    (hspan : log.spans[index]? = some span) (hparent : span.parent = log.stack.head?) :
    ∃ finish, span.finish = some finish := by
  rw [← Option.ne_none_iff_exists', ne_eq, ← h.open_iff hspan]
  intro hopen
  cases hstack : log.stack with
  | nil =>
    rw [hstack] at hopen
    cases hopen
  | cons top rest =>
    have hle := h.le_of_open hstack hopen
    rw [hstack, List.head?_cons] at hparent
    have hlt := (h.within hspan hparent).1
    omega

theorem later_append {history new : List E} (hhistory : history.Pairwise R)
    (h : Later R history new) : (history ++ new).Pairwise R :=
  List.pairwise_append.mpr ⟨hhistory, h.1, h.2⟩

theorem Nested.begin (h : Nested R log) {start : E} (hlater : Later R log.history [start]) :
    Nested R ⟨log.history ++ [start], log.spans ++ [⟨log.stack.head?, start, [], none⟩],
      log.spans.length :: log.stack⟩ := by
  have hold : ∀ {index : Nat} {span : Span E},
      (log.spans ++ [⟨log.stack.head?, start, [], none⟩])[index]? = some span →
        log.spans[index]? = some span ∨
          index = log.spans.length ∧ span = ⟨log.stack.head?, start, [], none⟩ := by
    intro index span hspan
    rcases Nat.lt_trichotomy index log.spans.length with hlt | rfl | hgt
    · rw [List.getElem?_append_left hlt] at hspan
      exact .inl hspan
    · rw [List.getElem?_concat_length, Option.some.injEq] at hspan
      exact .inr ⟨rfl, hspan.symm⟩
    · rw [List.getElem?_eq_none (by simp; omega)] at hspan
      cases hspan
  have hkept : ∀ {index : Nat} {span : Span E}, log.spans[index]? = some span →
      (log.spans ++ [⟨log.stack.head?, start, [], none⟩])[index]? = some span := by
    intro index span hspan
    rw [List.getElem?_append_left (List.getElem?_eq_some_iff.mp hspan).1]
    exact hspan
  refine ⟨later_append h.increasing hlater, ?_, ?_, ?_, ⟨?_, ?_⟩, ?_, ?_, ?_, ?_⟩
  · simpa [Span.events] using h.recorded.append_right [start]
  · exact List.pairwise_cons.mpr ⟨h.bound, h.decreasing⟩
  · intro index hindex
    rcases List.mem_cons.mp hindex with rfl | hindex
    · simp
    · have hlt := h.bound index hindex
      simp only [List.length_append, List.length_singleton]
      omega
  · simp
  · refine chained_congr (fun index hindex => ?_) h.chained
    rw [List.getElem?_append_left (h.bound index hindex)]
  · intro index span hspan
    rcases hold hspan with hspan | ⟨rfl, rfl⟩
    · have hne : index ≠ log.spans.length := Nat.ne_of_lt (List.getElem?_eq_some_iff.mp hspan).1
      rw [List.mem_cons, or_iff_right hne]
      exact h.open_iff hspan
    · simp
  · intro index span hspan
    rcases hold hspan with hspan | ⟨rfl, rfl⟩
    · exact h.inside hspan
    · exact List.pairwise_singleton _ _
  · intro index parent span hspan hparent
    rcases hold hspan with hspan | ⟨rfl, rfl⟩
    · obtain ⟨hlt, outer, houter, hrest⟩ := h.within hspan hparent
      exact ⟨hlt, outer, hkept houter, hrest⟩
    · have hopen : parent ∈ log.stack := List.mem_of_mem_head? hparent
      obtain ⟨outer, houter, hnone⟩ := h.exists_open hopen
      refine ⟨h.bound parent hopen, outer, hkept houter, ?_, fun last hlast => ?_⟩
      · exact hlater.2 _ (h.start_mem houter) start (List.mem_singleton_self _)
      · rw [hnone] at hlast
        cases hlast
  · intro i j a b hij ha hb hparent
    rcases hold ha with ha | ⟨rfl, rfl⟩
    · rcases hold hb with hb | ⟨rfl, rfl⟩
      · exact h.apart hij ha hb hparent
      · obtain ⟨finish, hfinish⟩ := h.closed_below_top ha hparent
        exact ⟨finish, hfinish, hlater.2 _ (h.finish_mem ha hfinish) start
          (List.mem_singleton_self _)⟩
    · have hlt := (List.getElem?_eq_some_iff.mp hb).1
      simp only [List.length_append, List.length_singleton] at hlt
      omega

/-- The events of a span that is still open lead up to what is new. -/
theorem Nested.events_append (h : Nested R log) {index : Nat} {span : Span E}
    (hspan : log.spans[index]? = some span) {new : List E} (hlater : Later R log.history new) :
    (span.events ++ new).Pairwise R :=
  List.pairwise_append.mpr ⟨h.inside hspan, hlater.1,
    fun old hold => hlater.2 old (h.mem_history hspan hold)⟩

theorem Nested.mark (h : Nested R log) {index : Nat} {rest : List Nat} {mark : E}
    (hstack : log.stack = index :: rest) (hlater : Later R log.history [mark]) :
    Nested R ⟨log.history ++ [mark], log.spans.modify index (Span.mark mark), log.stack⟩ := by
  have hindex : index ∈ log.stack := hstack ▸ List.mem_cons_self
  obtain ⟨current, hcurrent, hopen⟩ := h.exists_open hindex
  have hevents : (current.mark mark).events = current.events ++ [mark] := by
    simp [Span.events, Span.mark, hopen]
  refine ⟨later_append h.increasing hlater, ?_, h.decreasing, ?_, ?_, ?_, ?_, ?_, ?_⟩
  · exact (h.recorded.append_right _).trans
      (flatMap_modify_perm hcurrent (List.Perm.of_eq hevents)).symm
  · intro other hother
    rw [List.length_modify]
    exact h.bound other hother
  · refine chained_congr (fun other _ => ?_) h.chained
    rw [List.getElem?_modify]
    cases log.spans[other]? with
    | none => rfl
    | some span => by_cases hsame : index = other <;> simp [hsame, Span.mark]
  · intro other span hspan
    obtain ⟨old, hold, rfl⟩ := getElem?_modify_eq_some.mp hspan
    rw [h.open_iff hold]
    split_ifs <;> rfl
  · intro other span hspan
    obtain ⟨old, hold, rfl⟩ := getElem?_modify_eq_some.mp hspan
    split_ifs with hsame
    · subst hsame
      obtain rfl := Option.some.inj (hcurrent.symm.trans hold)
      rw [hevents]
      exact h.events_append hcurrent hlater
    · exact h.inside hold
  · intro other parent span hspan hparent
    obtain ⟨old, hold, rfl⟩ := getElem?_modify_eq_some.mp hspan
    have hparentOld : old.parent = some parent := by
      split_ifs at hparent <;> exact hparent
    obtain ⟨hlt, outer, houter, hstart, hfinish⟩ := h.within hold hparentOld
    refine ⟨hlt, _, getElem?_modify_eq_some.mpr ⟨outer, houter, rfl⟩, ?_, ?_⟩
    · split_ifs <;> exact hstart
    · split_ifs <;> exact hfinish
  · intro i j a b hij ha hb hparent
    obtain ⟨oldA, holdA, rfl⟩ := getElem?_modify_eq_some.mp ha
    obtain ⟨oldB, holdB, rfl⟩ := getElem?_modify_eq_some.mp hb
    have hparentOld : oldA.parent = oldB.parent := by
      split_ifs at hparent <;> exact hparent
    obtain ⟨finish, hfinish, hR⟩ := h.apart hij holdA holdB hparentOld
    refine ⟨finish, ?_, ?_⟩
    · split_ifs <;> exact hfinish
    · split_ifs <;> exact hR

theorem Nested.close (h : Nested R log) {index : Nat} {rest : List Nat} {last : List E} {finish : E}
    (hstack : log.stack = index :: rest) (hlater : Later R log.history (last ++ [finish])) :
    Nested R ⟨log.history ++ (last ++ [finish]), log.spans.modify index (Span.close last finish),
      rest⟩ := by
  have hindex : index ∈ log.stack := hstack ▸ List.mem_cons_self
  obtain ⟨current, hcurrent, hopen⟩ := h.exists_open hindex
  have hevents : (current.close last finish).events = current.events ++ (last ++ [finish]) := by
    simp [Span.events, Span.close, hopen]
  have hdecreasing := h.decreasing
  rw [hstack] at hdecreasing
  have hrest : ∀ other ∈ rest, other ∈ log.stack ∧ other ≠ index := fun other hother =>
    ⟨hstack ▸ List.mem_cons_of_mem _ hother,
      Nat.ne_of_lt ((List.pairwise_cons.mp hdecreasing).1 other hother)⟩
  have hlast : finish ∈ last ++ [finish] := by simp
  refine ⟨later_append h.increasing hlater, ?_, (List.pairwise_cons.mp hdecreasing).2, ?_, ?_, ?_,
    ?_, ?_, ?_⟩
  · exact (h.recorded.append_right _).trans
      (flatMap_modify_perm hcurrent (List.Perm.of_eq hevents)).symm
  · intro other hother
    rw [List.length_modify]
    exact h.bound other (hrest other hother).1
  · have hchained := h.chained
    rw [hstack] at hchained
    refine chained_congr (fun other hother => ?_) hchained.2
    rw [List.getElem?_modify]
    cases log.spans[other]? with
    | none => rfl
    | some span => simp [(hrest other hother).2.symm]
  · intro other span hspan
    obtain ⟨old, hold, rfl⟩ := getElem?_modify_eq_some.mp hspan
    split_ifs with hsame
    · subst hsame
      exact iff_of_false (fun hmem => (hrest index hmem).2 rfl) (by simp [Span.close])
    · rw [← h.open_iff hold, hstack, List.mem_cons, or_iff_right (Ne.symm hsame)]
  · intro other span hspan
    obtain ⟨old, hold, rfl⟩ := getElem?_modify_eq_some.mp hspan
    split_ifs with hsame
    · subst hsame
      obtain rfl := Option.some.inj (hcurrent.symm.trans hold)
      rw [hevents]
      exact h.events_append hcurrent hlater
    · exact h.inside hold
  · intro other parent span hspan hparent
    obtain ⟨old, hold, rfl⟩ := getElem?_modify_eq_some.mp hspan
    have hparentOld : old.parent = some parent := by
      split_ifs at hparent <;> exact hparent
    obtain ⟨hlt, outer, houter, hstart, hinner⟩ := h.within hold hparentOld
    refine ⟨hlt, _, getElem?_modify_eq_some.mpr ⟨outer, houter, rfl⟩, ?_, fun end_ hend => ?_⟩
    · split_ifs <;> exact hstart
    by_cases hparentIndex : index = parent
    · -- The parent closes now: its children have closed before.
      rw [if_pos hparentIndex] at hend
      obtain rfl : finish = end_ := Option.some.inj hend
      have hne : index ≠ other := by omega
      have hclosed : old.finish ≠ none := fun hnone => by
        have hle := h.le_of_open hstack ((h.open_iff hold).mpr hnone)
        omega
      obtain ⟨inner, hinnerFinish⟩ := Option.ne_none_iff_exists'.mp hclosed
      rw [if_neg hne]
      exact ⟨inner, hinnerFinish, hlater.2 _ (h.finish_mem hold hinnerFinish) finish hlast⟩
    · rw [if_neg hparentIndex] at hend
      obtain ⟨inner, hinnerFinish, hR⟩ := hinner end_ hend
      have hne : index ≠ other := fun hsame => by
        subst hsame
        obtain rfl := Option.some.inj (hcurrent.symm.trans hold)
        rw [hopen] at hinnerFinish
        cases hinnerFinish
      rw [if_neg hne]
      exact ⟨inner, hinnerFinish, hR⟩
  · intro i j a b hij ha hb hparent
    obtain ⟨oldA, holdA, rfl⟩ := getElem?_modify_eq_some.mp ha
    obtain ⟨oldB, holdB, rfl⟩ := getElem?_modify_eq_some.mp hb
    have hparentOld : oldA.parent = oldB.parent := by
      split_ifs at hparent <;> exact hparent
    obtain ⟨before, hbefore, hR⟩ := h.apart hij holdA holdB hparentOld
    have hne : index ≠ i := fun hsame => by
      subst hsame
      obtain rfl := Option.some.inj (hcurrent.symm.trans holdA)
      rw [hopen] at hbefore
      cases hbefore
    rw [if_neg hne]
    refine ⟨before, hbefore, ?_⟩
    split_ifs <;> exact hR

theorem Nested.step {log' : Log E} (h : Nested R log) (hstep : Step R log log') :
    Nested R log' := by
  cases hstep with
  | begin hlater => exact h.begin hlater
  | mark hstack hlater => exact h.mark hstack hlater
  | close hstack hlater => exact h.close hstack hlater

end Steps

end SpecGate.NestedSpans
