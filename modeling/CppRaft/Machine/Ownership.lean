import Mathlib.Logic.Basic

/-!
# Things with one holder

Things come and go, and each one that is there has exactly one holder. A step that makes a
thing, gives one up or passes one on is described by what it does to all holders at once.
-/

namespace CppRaft

namespace Machine

variable {Holder Thing : Type} {holds holds' : Holder → Thing → Prop} {live live' : Thing → Prop}

/-- What is there has one holder, and nothing else is held. -/
structure Exclusive (holds : Holder → Thing → Prop) (live : Thing → Prop) : Prop where
  one : ∀ {p q : Holder} {thing : Thing}, holds p thing → holds q thing → p = q
  live_iff : ∀ thing, live thing ↔ ∃ p, holds p thing

namespace Exclusive

variable {p q : Holder} {thing : Thing}

/-- Nothing happens. -/
theorem congr (exclusive : Exclusive holds live) (same : ∀ r x, holds' r x ↔ holds r x)
    (stays : ∀ x, live' x ↔ live x) : Exclusive holds' live' := by
  refine ⟨fun first second => exclusive.one ((same _ _).mp first) ((same _ _).mp second),
    fun x => ?_⟩
  rw [stays, exclusive.live_iff]
  exact exists_congr fun r => (same r x).symm

/-- A new thing comes to a holder: it had none before, so it has one then. -/
theorem acquire (exclusive : Exclusive holds live) (new : ¬live thing)
    (gets : ∀ r x, holds' r x ↔ holds r x ∨ (r = q ∧ x = thing))
    (begins : ∀ x, live' x ↔ live x ∨ x = thing) : Exclusive holds' live' := by
  have unheld {r : Holder} (held : holds r thing) : False :=
    new ((exclusive.live_iff thing).mpr ⟨r, held⟩)
  constructor
  · intro r r' x first second
    rcases (gets _ _).mp first with old | ⟨rfl, rfl⟩
    · rcases (gets _ _).mp second with old' | ⟨-, rfl⟩
      · exact exclusive.one old old'
      · exact (unheld old).elim
    · rcases (gets _ _).mp second with old' | ⟨rfl, -⟩
      · exact (unheld old').elim
      · rfl
  · intro x
    rw [begins, exclusive.live_iff]
    constructor
    · rintro (⟨r, old⟩ | rfl)
      · exact ⟨r, (gets r x).mpr (Or.inl old)⟩
      · exact ⟨q, (gets q x).mpr (Or.inr ⟨rfl, rfl⟩)⟩
    · rintro ⟨r, held⟩
      rcases (gets r x).mp held with old | ⟨-, same⟩
      · exact Or.inl ⟨r, old⟩
      · exact Or.inr same

/-- A thing ceases to be, and its holder has it no more. -/
theorem release (exclusive : Exclusive holds live) (held : holds p thing)
    (loses : ∀ r x, holds' r x ↔ holds r x ∧ ¬(r = p ∧ x = thing))
    (ends : ∀ x, live' x ↔ live x ∧ x ≠ thing) : Exclusive holds' live' := by
  constructor
  · intro r r' x first second
    exact exclusive.one ((loses _ _).mp first).1 ((loses _ _).mp second).1
  · intro x
    rw [ends, exclusive.live_iff]
    constructor
    · rintro ⟨⟨r, old⟩, different⟩
      exact ⟨r, (loses r x).mpr ⟨old, fun same => different same.2⟩⟩
    · rintro ⟨r, kept⟩
      obtain ⟨old, other⟩ := (loses r x).mp kept
      refine ⟨⟨r, old⟩, ?_⟩
      rintro rfl
      exact other ⟨exclusive.one old held, rfl⟩

/-- A thing goes from one holder to another. -/
theorem move (exclusive : Exclusive holds live) (held : holds p thing)
    (moves : ∀ r x, holds' r x ↔ (holds r x ∧ ¬(r = p ∧ x = thing)) ∨ (r = q ∧ x = thing)) :
    Exclusive holds' live := by
  have released : Exclusive (fun r x => holds r x ∧ ¬(r = p ∧ x = thing))
      fun x => live x ∧ x ≠ thing :=
    exclusive.release held (fun _ _ => Iff.rfl) fun _ => Iff.rfl
  refine released.acquire (fun alive => alive.2 rfl) moves fun x => ?_
  constructor
  · intro alive
    by_cases same : x = thing
    · exact Or.inr same
    · exact Or.inl ⟨alive, same⟩
  · rintro (alive | rfl)
    · exact alive.1
    · exact (exclusive.live_iff x).mpr ⟨p, held⟩

end Exclusive

end Machine

end CppRaft
