import Mathlib

/-!
Copies of a shared state that several threads publish. A thread changes the state, takes a
copy of it, and puts the copy in place of the published one. Others may do the same between
any two of these steps. Copies are numbered as they are taken. When a thread publishes only
while no other holds an older copy, the published copy never gets older, and the last one to
be published is a copy of the latest state.
-/
namespace SpecGate.Publication

variable {Thread State Copy : Type*}

/-- Where a thread is: it has a copy to take after a change, or one to publish. -/
inductive Stage (Copy : Type*) where
  | idle
  | due
  | holding (ticket : Nat) (copy : Copy)

/-- A stage without a copy to publish. -/
def Stage.Free (stage : Stage Copy) : Prop := ∀ ticket copy, stage ≠ .holding ticket copy

theorem Stage.free_idle : (.idle : Stage Copy).Free := fun _ _ h => by cases h

theorem Stage.free_due : (.due : Stage Copy).Free := fun _ _ h => by cases h

structure World (Thread State Copy : Type*) where
  state : State
  published : Option (Nat × Copy)
  taken : Nat
  stages : Thread → Stage Copy
  lost : Bool

/-- No other thread holds an older copy than a given one. -/
def Oldest (world : World Thread State Copy) (ticket : Nat) : Prop :=
  ∀ other otherTicket copy, world.stages other = .holding otherTicket copy → ticket ≤ otherTicket

variable [DecidableEq Thread]

def World.put (world : World Thread State Copy) (thread : Thread) (stage : Stage Copy) :
    World Thread State Copy :=
  { world with stages := Function.update world.stages thread stage }

/-- The steps of the threads. A thread that gives up may leave any state, and its change may
never be published. -/
inductive Step (view : State → Option Copy) :
    World Thread State Copy → World Thread State Copy → Prop
  | change {world : World Thread State Copy} (thread : Thread) (state : State)
      (hidle : world.stages thread = .idle) :
      Step view world { world.put thread .due with state := state }
  | take {world : World Thread State Copy} (thread : Thread) (copy : Copy)
      (hdue : world.stages thread = .due) (hcopy : view world.state = some copy) :
      Step view world { world.put thread (.holding world.taken copy) with taken := world.taken + 1 }
  | publish {world : World Thread State Copy} (thread : Thread) (ticket : Nat) (copy : Copy)
      (hholding : world.stages thread = .holding ticket copy) (holdest : Oldest world ticket) :
      Step view world { world.put thread .idle with published := some (ticket, copy) }
  | abandon {world : World Thread State Copy} (thread : Thread) (state : State) :
      Step view world { world.put thread .idle with state := state, lost := true }

/-- A copy that is held, or published. -/
def Kept (world : World Thread State Copy) (ticket : Nat) (copy : Copy) : Prop :=
  (∃ thread, world.stages thread = .holding ticket copy) ∨ world.published = some (ticket, copy)

structure Invariant (view : State → Option Copy) (world : World Thread State Copy) : Prop where
  bounded : ∀ {thread ticket copy}, world.stages thread = .holding ticket copy →
    ticket < world.taken
  distinct : ∀ {thread other ticket copy otherCopy}, world.stages thread = .holding ticket copy →
    world.stages other = .holding ticket otherCopy → thread = other
  behind : ∀ {ticket copy}, world.published = some (ticket, copy) → ticket < world.taken ∧
    ∀ {thread held heldCopy}, world.stages thread = .holding held heldCopy → ticket < held
  newest : world.lost = false → 0 < world.taken → ∃ copy, Kept world (world.taken - 1) copy
  current : world.lost = false → (∀ thread, world.stages thread ≠ .due) →
    ∀ {copy}, Kept world (world.taken - 1) copy → view world.state = some copy

section Put

variable {world : World Thread State Copy} {thread other : Thread} {stage : Stage Copy}

theorem put_self : (world.put thread stage).stages thread = stage := Function.update_self ..

theorem put_of_ne (h : other ≠ thread) : (world.put thread stage).stages other =
    world.stages other := Function.update_of_ne h ..

/-- A thread that holds a copy after another stage was entered held it before. -/
theorem holding_of_put {ticket : Nat} {copy : Copy}
    (hstage : stage.Free)
    (h : (world.put thread stage).stages other = .holding ticket copy) :
    other ≠ thread ∧ world.stages other = .holding ticket copy := by
  by_cases hsame : other = thread
  · subst hsame
    rw [put_self] at h
    exact absurd h (hstage ticket copy)
  · exact ⟨hsame, by rwa [put_of_ne hsame] at h⟩

theorem due_of_put (hthread : world.stages thread ≠ .due)
    (h : ∀ other, (world.put thread stage).stages other ≠ .due) :
    ∀ other, world.stages other ≠ .due := by
  intro other
  by_cases hsame : other = thread
  · rwa [hsame]
  · have hother := h other
    rwa [put_of_ne hsame] at hother

end Put

section Preserved

variable {view : State → Option Copy} {world next : World Thread State Copy}

/-- A thread that holds nothing leaves every copy where it is. -/
theorem Kept.put {thread : Thread} {stage : Stage Copy} {ticket : Nat} {copy : Copy}
    (hfree : (world.stages thread).Free)
    (h : Kept world ticket copy) : Kept (world.put thread stage) ticket copy := by
  rcases h with ⟨other, hother⟩ | hpublished
  · have hne : other ≠ thread := by
      intro hsame
      exact hfree ticket copy (hsame ▸ hother)
    exact .inl ⟨other, by rwa [put_of_ne hne]⟩
  · exact .inr hpublished

theorem invariant_change (h : Invariant view world) {thread : Thread} (state : State)
    (hidle : world.stages thread = .idle) :
    Invariant view { world.put thread .due with state := state } where
  bounded := fun hheld => h.bounded (holding_of_put Stage.free_due hheld).2
  distinct := fun hheld hother => h.distinct (holding_of_put Stage.free_due hheld).2
    (holding_of_put Stage.free_due hother).2
  behind := by
    intro ticket copy hpublished
    obtain ⟨hbound, hbehind⟩ := h.behind hpublished
    exact ⟨hbound, fun hheld => hbehind (holding_of_put Stage.free_due hheld).2⟩
  newest := by
    intro hlost htaken
    obtain ⟨copy, hkept⟩ := h.newest hlost htaken
    exact ⟨copy, hkept.put (hidle ▸ Stage.free_idle)⟩
  current := by
    intro _ hdue
    exact absurd put_self (hdue thread)

theorem invariant_take (h : Invariant view world) {thread : Thread} {copy : Copy}
    (hdue : world.stages thread = .due) (hcopy : view world.state = some copy) :
    Invariant view
      { world.put thread (.holding world.taken copy) with taken := world.taken + 1 } := by
  have hheld : ∀ {other ticket held}, (world.put thread (.holding world.taken copy)).stages other =
      .holding ticket held → (other = thread ∧ ticket = world.taken ∧ held = copy) ∨
        (other ≠ thread ∧ world.stages other = .holding ticket held) := by
    intro other ticket held hother
    by_cases hsame : other = thread
    · subst hsame
      rw [put_self] at hother
      cases hother
      exact .inl ⟨rfl, rfl, rfl⟩
    · exact .inr ⟨hsame, by rwa [put_of_ne hsame] at hother⟩
  constructor
  case bounded =>
    intro other ticket held hother
    show ticket < world.taken + 1
    rcases hheld hother with ⟨-, hticket, -⟩ | ⟨-, hother⟩
    · omega
    · have := h.bounded hother
      omega
  case distinct =>
    intro first second ticket firstCopy secondCopy hfirst hsecond
    rcases hheld hfirst with ⟨hthread, hticket, -⟩ | ⟨-, hfirst⟩
    · rcases hheld hsecond with ⟨hother, -, -⟩ | ⟨-, hsecond⟩
      · exact hthread.trans hother.symm
      · have := h.bounded hsecond
        omega
    · rcases hheld hsecond with ⟨-, hticket, -⟩ | ⟨-, hsecond⟩
      · have := h.bounded hfirst
        omega
      · exact h.distinct hfirst hsecond
  case behind =>
    intro ticket published hpublished
    obtain ⟨hbound, hbehind⟩ := h.behind hpublished
    refine ⟨Nat.lt_succ_of_lt hbound, fun {other ticket' held} hother => ?_⟩
    rcases hheld hother with ⟨-, hticket, -⟩ | ⟨-, hother⟩
    · omega
    · exact hbehind hother
  case newest => exact fun _ _ => ⟨copy, .inl ⟨thread, put_self⟩⟩
  case current =>
    intro _ _ kept hkept
    rcases hkept with ⟨other, hother⟩ | hpublished
    · rcases hheld hother with ⟨-, -, rfl⟩ | ⟨-, hother⟩
      · exact hcopy
      · exact absurd (h.bounded hother) (Nat.lt_irrefl _)
    · exact absurd (h.behind hpublished).1 (Nat.lt_irrefl _)

theorem invariant_publish (h : Invariant view world) {thread : Thread} {ticket : Nat} {copy : Copy}
    (hholding : world.stages thread = .holding ticket copy) (holdest : Oldest world ticket) :
    Invariant view { world.put thread .idle with published := some (ticket, copy) } where
  bounded := fun hheld => h.bounded (holding_of_put Stage.free_idle hheld).2
  distinct := fun hheld hother => h.distinct (holding_of_put Stage.free_idle hheld).2
    (holding_of_put Stage.free_idle hother).2
  behind := by
    intro published publishedCopy hpublished
    cases hpublished
    refine ⟨h.bounded hholding, fun {other held heldCopy} hheld => ?_⟩
    obtain ⟨hne, hheld⟩ := holding_of_put Stage.free_idle hheld
    refine Nat.lt_of_le_of_ne (holdest other held heldCopy hheld) fun hsame => hne ?_
    subst hsame
    exact h.distinct hheld hholding
  newest := by
    intro hlost htaken
    obtain ⟨newest, ⟨other, hother⟩ | hpublished⟩ := h.newest hlost htaken
    · by_cases hsame : other = thread
      · subst hsame
        rw [hholding] at hother
        obtain ⟨rfl, -⟩ := Stage.holding.inj hother
        exact ⟨copy, .inr rfl⟩
      · exact ⟨newest, .inl ⟨other, (put_of_ne hsame).trans hother⟩⟩
    · -- A held copy is newer than the published one, which is the newest.
      have hbound := h.bounded hholding
      have hbehind := (h.behind hpublished).2 hholding
      exact absurd (Nat.le_sub_one_of_lt hbound) (Nat.not_le_of_lt hbehind)
  current := by
    intro hlost hdue kept hkept
    refine h.current hlost (due_of_put (by rw [hholding]; intro hsame; cases hsame) hdue) ?_
    rcases hkept with ⟨other, hother⟩ | hpublished
    · exact .inl ⟨other, (holding_of_put Stage.free_idle hother).2⟩
    · obtain ⟨hticket, hcopy⟩ := Prod.mk.inj (Option.some.inj hpublished)
      exact .inl ⟨thread, hholding.trans (congrArg₂ Stage.holding hticket hcopy)⟩

theorem invariant_abandon (h : Invariant view world) (thread : Thread) (state : State) :
    Invariant view { world.put thread .idle with state := state, lost := true } where
  bounded := fun hheld => h.bounded (holding_of_put Stage.free_idle hheld).2
  distinct := fun hheld hother => h.distinct (holding_of_put Stage.free_idle hheld).2
    (holding_of_put Stage.free_idle hother).2
  behind := by
    intro ticket copy hpublished
    obtain ⟨hbound, hbehind⟩ := h.behind hpublished
    exact ⟨hbound, fun hheld => hbehind (holding_of_put Stage.free_idle hheld).2⟩
  newest := nofun
  current := nofun

theorem Step.invariant (hstep : Step view world next) (h : Invariant view world) :
    Invariant view next := by
  cases hstep with
  | change thread state hidle => exact invariant_change h state hidle
  | take thread copy hdue hcopy => exact invariant_take h hdue hcopy
  | publish thread ticket copy hholding holdest => exact invariant_publish h hholding holdest
  | abandon thread state => exact invariant_abandon h thread state

/-- What is published is not older than before. -/
def NotOlder (before after : Option (Nat × Copy)) : Prop :=
  ∀ ticket copy, before = some (ticket, copy) →
    ∃ laterTicket laterCopy, after = some (laterTicket, laterCopy) ∧ ticket ≤ laterTicket

theorem notOlder_refl (published : Option (Nat × Copy)) : NotOlder published published :=
  fun _ _ h => ⟨_, _, h, Nat.le_refl _⟩

theorem NotOlder.trans {first second third : Option (Nat × Copy)} (h : NotOlder first second)
    (h' : NotOlder second third) : NotOlder first third := by
  intro ticket copy hfirst
  obtain ⟨middle, middleCopy, hsecond, hle⟩ := h ticket copy hfirst
  obtain ⟨later, laterCopy, hthird, hle'⟩ := h' middle middleCopy hsecond
  exact ⟨later, laterCopy, hthird, Nat.le_trans hle hle'⟩

theorem Step.notOlder (hstep : Step view world next) (h : Invariant view world) :
    NotOlder world.published next.published := by
  cases hstep with
  | change | take | abandon => exact notOlder_refl _
  | publish thread ticket copy hholding _ =>
    intro published publishedCopy hpublished
    exact ⟨ticket, copy, rfl, Nat.le_of_lt ((h.behind hpublished).2 hholding)⟩

/-- A change has a copy, or one is still to be taken. -/
def Noticed (world : World Thread State Copy) : Prop :=
  world.lost = true ∨ 0 < world.taken ∨ ∃ thread, world.stages thread = .due

theorem Step.noticed (hstep : Step view world next) (h : Noticed world) : Noticed next := by
  cases hstep with
  | change thread state _ => exact .inr (.inr ⟨thread, put_self⟩)
  | take => exact .inr (.inl (Nat.succ_pos _))
  | abandon => exact .inl rfl
  | publish thread ticket copy hholding _ =>
    rcases h with hlost | htaken | ⟨other, hdue⟩
    · exact .inl hlost
    · exact .inr (.inl htaken)
    · have hne : other ≠ thread := by
        intro hsame
        rw [hsame, hholding] at hdue
        cases hdue
      exact .inr (.inr ⟨other, (put_of_ne hne).trans hdue⟩)

omit [DecidableEq Thread] in
/-- Once no thread has anything left to do, the latest state has been published. -/
theorem Invariant.settled (h : Invariant view world) (hnoticed : Noticed world)
    (hidle : ∀ thread, world.stages thread = .idle) (hlost : world.lost = false) :
    ∃ ticket copy, world.published = some (ticket, copy) ∧ view world.state = some copy := by
  have htaken : 0 < world.taken := by
    rcases hnoticed with hnoticed | htaken | ⟨thread, hdue⟩
    · rw [hlost] at hnoticed
      cases hnoticed
    · exact htaken
    · rw [hidle thread] at hdue
      cases hdue
  obtain ⟨copy, hkept⟩ := h.newest hlost htaken
  have hcurrent := h.current hlost (fun thread hdue => by rw [hidle thread] at hdue; cases hdue)
    hkept
  rcases hkept with ⟨thread, hheld⟩ | hpublished
  · rw [hidle thread] at hheld
    cases hheld
  · exact ⟨_, copy, hpublished, hcurrent⟩

omit [DecidableEq Thread] in
/-- Nothing has been published yet, and nothing is about to be. -/
theorem invariant_start (state : State) :
    Invariant view
      (⟨state, none, 0, fun _ => .idle, false⟩ : World Thread State Copy) where
  bounded := nofun
  distinct := nofun
  behind := nofun
  newest := nofun
  current := by
    intro _ _ copy hkept
    rcases hkept with ⟨thread, hheld⟩ | hpublished
    · cases hheld
    · cases hpublished

end Preserved

end SpecGate.Publication
