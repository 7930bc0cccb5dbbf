import Mathlib.Data.List.Forall2

/-!
# Results — computations that may fail, taken apart

A computation in steps succeeds exactly when every step does.  The first equations open a step
whose outcome is known; `bind_eq_ok` takes a success apart into the successes of its steps.
-/

namespace Quarry.Result

variable {ε α β γ : Type}

@[simp] theorem bind_ok (a : α) (f : α → Except ε β) : (Except.ok a >>= f) = f a := rfl

@[simp] theorem bind_error (e : ε) (f : α → Except ε β) :
    ((Except.error e : Except ε α) >>= f) = .error e := rfl

@[simp] theorem pure_eq_ok (a : α) : (pure a : Except ε α) = .ok a := rfl

/-- A sequence succeeds if its first part does and the second does with what the first gave. -/
theorem bind_eq_ok {x : Except ε α} {f : α → Except ε β} {b : β} :
    (x >>= f) = .ok b ↔ ∃ a, x = .ok a ∧ f a = .ok b := by
  cases x with
  | ok a => simp
  | error e => simp

/-- Results that are put into another form one to one can be compared before. -/
theorem map_inj {f : α → β} (hf : ∀ {a b}, f a = f b → a = b) {x y : Except ε α} :
    (do return f (← x)) = (do return f (← y) : Except ε β) ↔ x = y := by
  constructor
  · intro h
    cases x with
    | ok a =>
        cases y with
        | ok b => exact congrArg Except.ok (hf (Except.ok.inj h))
        | error e => cases h
    | error e =>
        cases y with
        | ok b => cases h
        | error e' => exact congrArg Except.error (Except.error.inj h)
  · exact fun h => by rw [h]

/-- What is said to succeed has a value. -/
theorem exists_of_isOk {x : Except ε α} (h : x.isOk = true) : ∃ a, x = .ok a := by
  cases x with
  | ok a => exact ⟨a, rfl⟩
  | error e => cases h

/-- What a computation fails with. -/
def fault? : Except ε α → Option ε
  | .ok _ => none
  | .error e => some e

theorem eq_error_of_fault? {x : Except ε α} {e : ε} (h : fault? x = some e) : x = .error e := by
  cases x with
  | ok a => cases h
  | error e' => exact congrArg Except.error (Option.some.inj h)

/-- The results of a list of computations, each beside its source. -/
theorem forall₂_of_mapM {f : α → Except ε β} : ∀ {as : List α} {bs : List β},
    as.mapM f = .ok bs → List.Forall₂ (fun a b => f a = .ok b) as bs
  | [], bs, h => by
      cases h
      exact .nil
  | a :: as, bs, h => by
      rw [List.mapM_cons, bind_eq_ok] at h
      obtain ⟨b, hb, h⟩ := h
      rw [bind_eq_ok] at h
      obtain ⟨rest, hrest, h⟩ := h
      cases h
      exact .cons hb (forall₂_of_mapM hrest)

/-- A list of computations succeeds with what stands beside the sources as their results. -/
theorem mapM_eq_ok_iff {f : α → Except ε β} {as : List α} {bs : List β} :
    as.mapM f = .ok bs ↔ List.Forall₂ (fun a b => f a = .ok b) as bs := by
  refine ⟨forall₂_of_mapM, fun h => ?_⟩
  induction h with
  | nil => rfl
  | cons hb _ ih =>
      rw [List.mapM_cons, hb, ih]
      rfl

/-- Two lists that correspond to one between them correspond directly. -/
theorem exists_forall₂_iff {R : α → β → Prop} {S : β → γ → Prop} {as : List α} {cs : List γ} :
    (∃ bs, List.Forall₂ R as bs ∧ List.Forall₂ S bs cs) ↔
      List.Forall₂ (fun a c => ∃ b, R a b ∧ S b c) as cs := by
  constructor
  · rintro ⟨bs, hab, hbc⟩
    induction hab generalizing cs with
    | nil =>
        cases hbc
        exact .nil
    | cons ha _ ih =>
        cases hbc with
        | cons hb hbc => exact .cons ⟨_, ha, hb⟩ (ih hbc)
  · intro h
    induction h with
    | nil => exact ⟨[], .nil, .nil⟩
    | cons h _ ih =>
        obtain ⟨b, ha, hb⟩ := h
        obtain ⟨bs, has, hbs⟩ := ih
        exact ⟨b :: bs, .cons ha has, .cons hb hbs⟩

/-- **Two lists of computations**, the second on the results of the first, succeed if and only if
the computations do so one after the other for each item, and with the same results. -/
theorem mapM_bind_mapM_eq_ok_iff {f : α → Except ε β} {g : β → Except ε γ} {as : List α}
    {cs : List γ} :
    (as.mapM f >>= fun bs => bs.mapM g) = .ok cs ↔ as.mapM (fun a => f a >>= g) = .ok cs := by
  simp only [bind_eq_ok, mapM_eq_ok_iff, exists_forall₂_iff]

/-- Every result comes from a source. -/
theorem exists_of_mem_mapM {f : α → Except ε β} {as : List α} {bs : List β}
    (h : as.mapM f = .ok bs) {b : β} (hb : b ∈ bs) : ∃ a ∈ as, f a = .ok b := by
  have hall := forall₂_of_mapM h
  clear h
  induction hall with
  | nil => cases hb
  | cons ha _ ih =>
      rcases List.mem_cons.mp hb with rfl | hb
      · exact ⟨_, List.mem_cons_self, ha⟩
      · obtain ⟨a, hmem, hfound⟩ := ih hb
        exact ⟨a, List.mem_cons_of_mem _ hmem, hfound⟩

/-- What is read off the results of a list of computations, each from its own source, is read off
the sources. -/
theorem map_eq_of_mapM {f : α → Except ε β} {g : β → γ} {h : α → γ}
    (hf : ∀ a b, f a = .ok b → g b = h a) {as : List α} {bs : List β}
    (hm : as.mapM f = .ok bs) : bs.map g = as.map h := by
  have hall := forall₂_of_mapM hm
  clear hm
  induction hall with
  | nil => rfl
  | cons hb _ ih => rw [List.map_cons, List.map_cons, hf _ _ hb, ih]

/-- A list of computations beside another one that succeeds item by item where the first does. -/
theorem mapM_map_eq {f : α → Except ε β} {g : α → Except ε γ} {k : β → γ} {as : List α}
    (hfg : ∀ a ∈ as, ∀ b, f a = .ok b → g a = .ok (k b)) {bs : List β}
    (h : as.mapM f = .ok bs) : as.mapM g = .ok (bs.map k) := by
  have hall := forall₂_of_mapM h
  clear h
  induction hall with
  | nil => rfl
  | cons hb _ ih =>
      obtain ⟨ha, has⟩ := List.forall_mem_cons.mp hfg
      rw [List.mapM_cons, ha _ hb, ih has]
      rfl

/-- A list of computations that succeeds still does so with computations that fail less often. -/
theorem mapM_mono {f g : α → Except ε β} {as : List α}
    (hfg : ∀ a ∈ as, ∀ b, f a = .ok b → g a = .ok b) {bs : List β} (h : as.mapM f = .ok bs) :
    as.mapM g = .ok bs := by
  rw [mapM_map_eq (k := id) hfg h, List.map_id]

/-- A function of every result. -/
theorem map_mapM (k : β → γ) (f : α → Except ε β) (as : List α) :
    (do return (← as.mapM f).map k) = as.mapM fun a => do return k (← f a) := by
  induction as with
  | nil => rfl
  | cons a as ih =>
      rw [List.mapM_cons, List.mapM_cons, ← ih]
      cases f a with
      | error e => rfl
      | ok b => cases as.mapM f <;> rfl

/-- A list of computations some of which leave nothing, without these. -/
theorem mapM_filterMap {f : α → Except ε (Option γ)} {p : α → Option β} {g : β → Except ε γ}
    {as : List α} (h : ∀ a ∈ as, f a = (p a).mapM g) :
    (do return (← as.mapM f).filterMap id) = (as.filterMap p).mapM g := by
  induction as with
  | nil => rfl
  | cons a as ih =>
      obtain ⟨ha, has⟩ := List.forall_mem_cons.mp h
      rw [List.mapM_cons, List.filterMap_cons, ha]
      cases p a with
      | none =>
          rw [← ih has]
          cases as.mapM f <;> rfl
      | some b =>
          rw [List.mapM_cons, ← ih has, Option.mapM_some]
          cases g b with
          | error e => rfl
          | ok c => cases as.mapM f <;> rfl

/-- A list of computations in another order has its results in another order. -/
theorem mapM_perm {f : α → Except ε β} {as as' : List α} (h : as.Perm as') {bs : List β}
    (hm : as.mapM f = .ok bs) : ∃ bs', as'.mapM f = .ok bs' ∧ bs.Perm bs' := by
  induction h generalizing bs with
  | nil => exact ⟨bs, hm, .refl _⟩
  | cons a _ ih =>
      rw [List.mapM_cons] at hm ⊢
      obtain ⟨b, hb, hm⟩ := bind_eq_ok.mp hm
      obtain ⟨rest, hrest, hm⟩ := bind_eq_ok.mp hm
      cases hm
      obtain ⟨rest', hrest', hperm⟩ := ih hrest
      exact ⟨b :: rest', by rw [hb, hrest']; rfl, hperm.cons b⟩
  | swap a a' as =>
      simp only [List.mapM_cons] at hm ⊢
      obtain ⟨b', hb', hm⟩ := bind_eq_ok.mp hm
      obtain ⟨both, hboth, hm⟩ := bind_eq_ok.mp hm
      obtain ⟨b, hb, hboth⟩ := bind_eq_ok.mp hboth
      obtain ⟨rest, hrest, hboth⟩ := bind_eq_ok.mp hboth
      cases hboth
      cases hm
      exact ⟨b :: b' :: rest, by rw [hb, hb', hrest]; rfl, .swap b b' rest⟩
  | trans _ _ ih ih' =>
      obtain ⟨middle, hmiddle, hperm⟩ := ih hm
      obtain ⟨bs', hbs', hperm'⟩ := ih' hmiddle
      exact ⟨bs', hbs', hperm.trans hperm'⟩

/-- Around one computation of a list. -/
theorem mapM_append_cons_eq_ok {f : α → Except ε β} {front back : List α} {a : α} {bs : List β} :
    (front ++ a :: back).mapM f = .ok bs ↔ ∃ fs b cs, front.mapM f = .ok fs ∧ f a = .ok b ∧
      back.mapM f = .ok cs ∧ bs = fs ++ b :: cs := by
  rw [List.mapM_append, List.mapM_cons]
  constructor
  · intro h
    obtain ⟨fs, hfs, h⟩ := bind_eq_ok.mp h
    obtain ⟨rest, hrest, h⟩ := bind_eq_ok.mp h
    obtain ⟨b, hb, hrest⟩ := bind_eq_ok.mp hrest
    obtain ⟨cs, hcs, hrest⟩ := bind_eq_ok.mp hrest
    cases hrest
    cases h
    exact ⟨fs, b, cs, hfs, hb, hcs, rfl⟩
  · rintro ⟨fs, b, cs, hfs, hb, hcs, rfl⟩
    rw [hfs, hb, hcs]
    rfl

/-- A list of computations succeeds, or fails like one of them. -/
theorem mapM_cases (f : α → Except ε β) : ∀ as : List α,
    (∃ bs, as.mapM f = .ok bs) ∨ ∃ a ∈ as, ∃ e, f a = .error e ∧ as.mapM f = .error e
  | [] => .inl ⟨[], rfl⟩
  | a :: as => by
      rw [List.mapM_cons]
      cases ha : f a with
      | error e => exact .inr ⟨a, List.mem_cons_self, e, ha, rfl⟩
      | ok b =>
          rcases mapM_cases f as with ⟨bs, hbs⟩ | ⟨a', hmem, e, he, has⟩
          · exact .inl ⟨b :: bs, by rw [hbs]; rfl⟩
          · exact .inr ⟨a', List.mem_cons_of_mem _ hmem, e, he, by rw [has]; rfl⟩

theorem mapM_isOk {f : α → Except ε β} {as : List α} (h : ∀ a ∈ as, ∃ b, f a = .ok b) :
    ∃ bs, as.mapM f = .ok bs := by
  rcases mapM_cases f as with hok | ⟨a, hmem, e, he, -⟩
  · exact hok
  · obtain ⟨b, hb⟩ := h a hmem
    cases hb.symm.trans he

/-- A list of computations that all succeed. -/
theorem mapM_eq_map {f : α → Except ε β} {g : α → β} {as : List α}
    (h : ∀ a ∈ as, f a = .ok (g a)) : as.mapM f = .ok (as.map g) := by
  induction as with
  | nil => rfl
  | cons a as ih =>
      obtain ⟨ha, has⟩ := List.forall_mem_cons.mp h
      rw [List.mapM_cons, ha, ih has]
      rfl

/-- Every success of a computation has a property. -/
def Gives (q : α → Prop) (x : Except ε α) : Prop :=
  ∀ a, x = .ok a → q a

namespace Gives

variable {q : α → Prop} {r : β → Prop} {x : Except ε α} {f : α → Except ε β}

theorem ok {a : α} (h : q a) : Gives q (.ok a : Except ε α) := by
  rintro _ ⟨⟩
  exact h

theorem any (x : Except ε α) : Gives (fun _ => True) x :=
  fun _ _ => trivial

theorem error (e : ε) : Gives q (.error e) := by
  rintro _ ⟨⟩

theorem bind (h : Gives q x) (hf : ∀ a, q a → Gives r (f a)) : Gives r (x >>= f) := by
  intro b hb
  obtain ⟨a, ha, hb⟩ := bind_eq_ok.mp hb
  exact hf a (h a ha) b hb

end Gives

/-- A computation succeeds, with a value that has a property. -/
def Yields (q : α → Prop) (x : Except ε α) : Prop :=
  ∃ a, x = .ok a ∧ q a

namespace Yields

variable {q : α → Prop} {r : β → Prop} {x : Except ε α} {f : α → Except ε β}

theorem ok {a : α} (h : q a) : Yields q (.ok a : Except ε α) :=
  ⟨a, rfl, h⟩

theorem bind (h : Yields q x) (hf : ∀ a, x = .ok a → q a → Yields r (f a)) :
    Yields r (x >>= f) := by
  obtain ⟨a, rfl, ha⟩ := h
  exact hf a rfl ha

/-- A computation followed by a function of its value. -/
theorem map {f : α → β} (h : Yields q x) (hf : ∀ a, q a → r (f a)) :
    Yields r (do return f (← x)) :=
  h.bind fun a _ ha => .ok (hf a ha)

theorem mapM {as : List α} (h : ∀ a ∈ as, Yields r (f a)) :
    Yields (fun bs => ∀ b ∈ bs, r b) (as.mapM f) := by
  induction as with
  | nil => exact .ok nofun
  | cons a as ih =>
      rw [List.mapM_cons]
      refine (h a List.mem_cons_self).bind fun b _ hb => ?_
      refine (ih fun a ha => h a (List.mem_cons_of_mem _ ha)).bind fun bs _ hbs => ?_
      exact .ok (List.forall_mem_cons.mpr ⟨hb, hbs⟩)

/-- The values of a list of computations, each related to its source. -/
theorem mapM_forall₂ {r : α → β → Prop} {as : List α} (h : ∀ a ∈ as, Yields (r a) (f a)) :
    Yields (List.Forall₂ r as) (as.mapM f) := by
  induction as with
  | nil => exact .ok .nil
  | cons a as ih =>
      rw [List.mapM_cons]
      refine (h a List.mem_cons_self).bind fun b _ hb => ?_
      exact (ih fun a ha => h a (List.mem_cons_of_mem _ ha)).map fun bs hbs => .cons hb hbs

end Yields

/-- There is one way in which a computation may fail. -/
def FailsOnly (e : ε) (x : Except ε α) : Prop :=
  ∀ e', x = .error e' → e' = e

namespace FailsOnly

variable {e : ε} {x : Except ε α} {f : α → Except ε β}

theorem ok (a : α) : FailsOnly e (.ok a) := by
  rintro _ ⟨⟩

theorem bind (h : FailsOnly e x) (hf : ∀ a, FailsOnly e (f a)) : FailsOnly e (x >>= f) := by
  cases x with
  | ok a => exact hf a
  | error e' =>
      rintro _ ⟨⟩
      exact h e' rfl

/-- A computation followed by a function of its value. -/
theorem map {f : α → β} (h : FailsOnly e x) : FailsOnly e (do return f (← x)) :=
  h.bind fun a => .ok (f a)

theorem mapM {as : List α} (h : ∀ a ∈ as, FailsOnly e (f a)) : FailsOnly e (as.mapM f) := by
  rcases mapM_cases f as with ⟨bs, hbs⟩ | ⟨a, ha, e', he', hfails⟩
  · rw [hbs]
    exact .ok bs
  · rw [hfails]
    rintro _ ⟨⟩
    exact h a ha e' he'

/-- A list of computations of which one fails. -/
theorem mapM_eq_error {as : List α} (h : ∀ a ∈ as, FailsOnly e (f a))
    (hfails : ∃ a ∈ as, f a = .error e) : as.mapM f = .error e := by
  cases hall : as.mapM f with
  | error e' => rw [mapM h e' hall]
  | ok bs =>
      obtain ⟨a, ha, hfail⟩ := hfails
      obtain ⟨front, back, rfl⟩ := List.append_of_mem ha
      obtain ⟨_, b, _, _, hok, -⟩ := mapM_append_cons_eq_ok.mp hall
      cases hok.symm.trans hfail

end FailsOnly

end Quarry.Result
