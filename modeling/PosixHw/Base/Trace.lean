import Mathlib.Tactic

/-!
# Computations with a trace

A computation leaves a list of events, such as the places that it reads, and a value.  It can be
undefined: the value is then `none`, and the events are those up to there.

* `tell e` leaves an event, and `lift o` goes on with the value of `o` if there is one;
* `t.All p` says that every event of `t` satisfies `p`, `t.Defined p` that `t` has a value as well,
  and `t.Ensures p q` that this value satisfies `q`;
* `all_bind`, `defined_bind` and `Ensures.bind` take a sequence of computations apart.
-/

namespace PosixHw

/-- The events of a computation, and its value. -/
structure Trace (ε α : Type*) where
  events : List ε
  value : Option α

namespace Trace

variable {ε : Type*} {α β : Type}

instance {ε : Type*} : Monad (Trace ε) where
  pure a := ⟨[], some a⟩
  bind t f :=
    match t.value with
    | none => ⟨t.events, none⟩
    | some a => ⟨t.events ++ (f a).events, (f a).value⟩

/-- Leaves an event. -/
def tell (e : ε) : Trace ε Unit := ⟨[e], some ()⟩

/-- Undefined if there is no value. -/
def lift (o : Option α) : Trace ε α := ⟨[], o⟩

/-- Every event satisfies `p`. -/
def All (t : Trace ε α) (p : ε → Prop) : Prop := ∀ e ∈ t.events, p e

/-- Every event satisfies `p`, and there is a value. -/
def Defined (t : Trace ε α) (p : ε → Prop) : Prop := t.All p ∧ ∃ a, t.value = some a

/-- Every event satisfies `p`, and there is a value, which satisfies `q`. -/
def Ensures (t : Trace ε α) (p : ε → Prop) (q : α → Prop) : Prop :=
  t.All p ∧ ∃ a, t.value = some a ∧ q a

instance (t : Trace ε α) (p : ε → Prop) [DecidablePred p] : Decidable (t.All p) :=
  inferInstanceAs (Decidable (∀ e ∈ t.events, p e))

instance (t : Trace ε α) (p : ε → Prop) [DecidablePred p] : Decidable (t.Defined p) :=
  decidable_of_iff (t.All p ∧ t.value.isSome = true)
    (and_congr_right fun _ => Option.isSome_iff_exists)

/-! ### Values -/

@[simp] theorem value_pure (a : α) : (pure a : Trace ε α).value = some a := rfl

@[simp] theorem value_tell (e : ε) : (tell e).value = some () := rfl

@[simp] theorem value_lift (o : Option α) : (lift o : Trace ε α).value = o := rfl

@[simp] theorem value_bind (t : Trace ε α) (f : α → Trace ε β) :
    (t >>= f).value = t.value.bind fun a => (f a).value := by
  obtain ⟨events, value⟩ := t
  cases value with
  | none => rfl
  | some a => rfl

/-! ### Events -/

variable {p : ε → Prop} {t : Trace ε α} {f : α → Trace ε β} {a : α} {e : ε}

theorem events_bind (h : t.value = some a) : (t >>= f).events = t.events ++ (f a).events := by
  obtain ⟨events, value⟩ := t
  cases h
  rfl

/-- A sequence whose parts are known. -/
theorem bind_eq {es fs : List ε} {o : Option β} (ht : t = ⟨es, some a⟩) (hf : f a = ⟨fs, o⟩) :
    t >>= f = ⟨es ++ fs, o⟩ := by
  subst ht
  change (⟨es ++ (f a).events, (f a).value⟩ : Trace ε β) = _
  rw [hf]

theorem events_bind_none (h : t.value = none) : (t >>= f).events = t.events := by
  obtain ⟨events, value⟩ := t
  cases h
  rfl

@[simp] theorem all_pure : (pure a : Trace ε α).All p := by
  intro e he
  cases he

@[simp] theorem all_lift {o : Option α} : (lift o : Trace ε α).All p := by
  intro e he
  cases he

@[simp] theorem all_tell : (tell e).All p ↔ p e := by
  unfold All tell
  simp

theorem all_bind : (t >>= f).All p ↔ t.All p ∧ ∀ a, t.value = some a → (f a).All p := by
  cases h : t.value with
  | none =>
    unfold All
    rw [events_bind_none h]
    simp
  | some a =>
    unfold All
    rw [events_bind h]
    simp [or_imp, forall_and]

theorem all_bind_of_some (h : t.value = some a) : (t >>= f).All p ↔ t.All p ∧ (f a).All p := by
  rw [all_bind, h]
  simp

theorem all_lift_bind {o : Option α} {f : α → Trace ε β} :
    (lift o >>= f).All p ↔ ∀ a, o = some a → (f a).All p := by
  rw [all_bind, value_lift, and_iff_right all_lift]

theorem all_tell_bind {f : Unit → Trace ε β} : (tell e >>= f).All p ↔ p e ∧ (f ()).All p := by
  rw [all_bind_of_some (value_tell e), all_tell]

@[simp] theorem defined_pure : (pure a : Trace ε α).Defined p := ⟨all_pure, a, rfl⟩

/-- **A sequence is defined** exactly if its parts are. -/
theorem defined_bind :
    (t >>= f).Defined p ↔ t.All p ∧ ∃ a, t.value = some a ∧ (f a).Defined p := by
  unfold Defined
  rw [all_bind, value_bind]
  constructor
  · rintro ⟨⟨ht, hf⟩, b, hb⟩
    obtain ⟨a, ha, hb⟩ := Option.bind_eq_some_iff.1 hb
    exact ⟨ht, a, ha, hf a ha, b, hb⟩
  · rintro ⟨ht, a, ha, hf, b, hb⟩
    refine ⟨⟨ht, fun a' ha' => ?_⟩, b, by rw [ha]; exact hb⟩
    cases ha.symm.trans ha'
    exact hf

/-! ### Values with a property -/

section Ensures

variable {q : α → Prop} {r : β → Prop}

@[simp] theorem ensures_pure : (pure a : Trace ε α).Ensures p q ↔ q a := by
  unfold Ensures
  simp

/-- **The rule of sequences.** -/
theorem Ensures.bind (ht : t.Ensures p q) (hf : ∀ a, q a → (f a).Ensures p r) :
    (t >>= f).Ensures p r := by
  obtain ⟨hall, a, ha, hq⟩ := ht
  obtain ⟨hall', b, hb, hr⟩ := hf a hq
  refine ⟨(all_bind_of_some ha).2 ⟨hall, hall'⟩, b, ?_, hr⟩
  rw [value_bind, ha]
  exact hb

theorem ensures_tell_bind {f : Unit → Trace ε β} :
    (tell e >>= f).Ensures p r ↔ p e ∧ (f ()).Ensures p r := by
  unfold Ensures
  rw [all_tell_bind, value_bind, value_tell, Option.bind_some, and_assoc]

end Ensures

end Trace
end PosixHw
