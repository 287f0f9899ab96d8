import Jpql.Error

/-! Steps that may fail, and may read and change a state, seen from their success: a sequence
succeeds when its steps do, one from the state that the other left. -/

namespace Jpql.Step

variable {σ α β : Type} {s s' : σ}

theorem bind_ok {m : StateT σ Result α} {f : α → StateT σ Result β} {b : β} :
    (m >>= f) s = .ok (b, s') ↔ ∃ a t, m s = .ok (a, t) ∧ f a t = .ok (b, s') := by
  change (m s >>= fun (a, t) => f a t) = _ ↔ _
  rcases m s with e | ⟨a, t⟩
  · simp [bind, Except.bind]
  · simp [bind, Except.bind, and_assoc]

/-- Either of two steps, with the same step behind it. -/
theorem ite_bind_ok {c : Prop} [Decidable c] {m m' : StateT σ Result α}
    {f : α → StateT σ Result β} {b : β} :
    (if c then m >>= f else m' >>= f) s = .ok (b, s') ↔
      ∃ a t, (if c then m else m') s = .ok (a, t) ∧ f a t = .ok (b, s') := by
  split <;> exact bind_ok

theorem pure_ok {a b : α} :
    (pure a : StateT σ Result α) s = .ok (b, s') ↔ a = b ∧ s = s' := by
  change (Except.ok (a, s) : Result (α × σ)) = _ ↔ _
  simp

theorem get_ok {a : σ} : (get : StateT σ Result σ) s = .ok (a, s') ↔ s = a ∧ s = s' := pure_ok

theorem set_ok {t : σ} {u : PUnit} : (set t : StateT σ Result PUnit) s = .ok (u, s') ↔ t = s' := by
  change (Except.ok (PUnit.unit, t) : Result (PUnit × σ)) = _ ↔ _
  simp

theorem modify_ok {f : σ → σ} {u : PUnit} :
    (modify f : StateT σ Result PUnit) s = .ok (u, s') ↔ f s = s' := by
  change (Except.ok (PUnit.unit, f s) : Result (PUnit × σ)) = _ ↔ _
  simp

theorem lift_ok {r : Result α} {a : α} :
    (liftM r : StateT σ Result α) s = .ok (a, s') ↔ r = .ok a ∧ s = s' := by
  change (r >>= fun a => .ok (a, s)) = _ ↔ _
  rcases r with e | a
  · simp [bind, Except.bind]
  · simp [bind, Except.bind]

theorem throw_ok {e : QueryError} {a : α} :
    (throw e : StateT σ Result α) s = .ok (a, s') ↔ False := by
  change (Except.error e : Result (α × σ)) = _ ↔ _
  simp

/-- A step for each element of a list, in order. -/
inductive Runs (f : α → StateT σ Result β) : σ → List α → List β → σ → Prop
  | nil (s : σ) : Runs f s [] [] s
  | cons {s t s' : σ} {a : α} {as : List α} {b : β} {bs : List β} :
    f a s = .ok (b, t) → Runs f t as bs s' → Runs f s (a :: as) (b :: bs) s'

theorem mapM_ok {f : α → StateT σ Result β} {as : List α} {bs : List β} :
    (as.mapM f) s = .ok (bs, s') ↔ Runs f s as bs s' := by
  induction as generalizing s bs s' with
  | nil =>
    rw [List.mapM_nil, pure_ok]
    constructor
    · rintro ⟨rfl, rfl⟩
      exact .nil s
    · rintro ⟨⟩
      exact ⟨rfl, rfl⟩
  | cons a as ih =>
    rw [List.mapM_cons]
    simp only [bind_ok, pure_ok, ih]
    constructor
    · rintro ⟨b, t, hb, bs, t', hbs, rfl, rfl⟩
      exact .cons hb hbs
    · rintro (_ | ⟨hb, hbs⟩)
      exact ⟨_, _, hb, _, _, hbs, rfl, rfl⟩

theorem Runs.append {f : α → StateT σ Result β} {as as' : List α} {bs bs' : List β} {t : σ}
    (h : Runs f s as bs t) (h' : Runs f t as' bs' s') : Runs f s (as ++ as') (bs ++ bs') s' := by
  induction h with
  | nil s => exact h'
  | cons hstep _ ih => exact .cons hstep (ih h')

theorem Runs.map {γ : Type} {f : α → StateT σ Result β} {g : γ → α} {cs : List γ} {bs : List β}
    (h : Runs (fun c => f (g c)) s cs bs s') : Runs f s (cs.map g) bs s' := by
  induction h with
  | nil s => exact .nil s
  | cons hstep _ ih => exact .cons hstep ih

theorem Runs.length_eq {f : α → StateT σ Result β} {as : List α} {bs : List β}
    (h : Runs f s as bs s') : bs.length = as.length := by
  induction h with
  | nil s => rfl
  | cons _ _ ih => rw [List.length_cons, List.length_cons, ih]

/-! ### Steps that succeed -/

/-- The step succeeds from every state. -/
def Succeeds (f : StateT σ Result α) : Prop := ∀ s, ∃ a t, f s = .ok (a, t)

theorem Succeeds.bind {f : StateT σ Result α} {g : α → StateT σ Result β} (hf : Succeeds f)
    (hg : ∀ a, Succeeds (g a)) : Succeeds (f >>= g) := by
  intro s
  obtain ⟨a, t, ha⟩ := hf s
  obtain ⟨b, t', hb⟩ := hg a t
  exact ⟨b, t', bind_ok.2 ⟨a, t, ha, hb⟩⟩

theorem exists_bind_ok {f : StateT σ Result α} {g : α → StateT σ Result β} {a : α}
    (hf : f s = .ok (a, s')) (hg : ∀ a, Succeeds (g a)) : ∃ b t, (f >>= g) s = .ok (b, t) := by
  obtain ⟨b, t, hb⟩ := hg a s'
  exact ⟨b, t, bind_ok.2 ⟨a, s', hf, hb⟩⟩

theorem succeeds_pure (a : α) : Succeeds (pure a : StateT σ Result α) :=
  fun s => ⟨a, s, pure_ok.2 ⟨rfl, rfl⟩⟩

theorem succeeds_lift {r : Result α} {a : α} (h : r = .ok a) :
    Succeeds (liftM r : StateT σ Result α) := fun s => ⟨a, s, lift_ok.2 ⟨h, rfl⟩⟩

theorem succeeds_modify (f : σ → σ) : Succeeds (modify f : StateT σ Result PUnit) :=
  fun s => ⟨⟨⟩, f s, modify_ok.2 rfl⟩

theorem succeeds_mapM {f : α → StateT σ Result β} {as : List α} (h : ∀ a ∈ as, Succeeds (f a)) :
    Succeeds (as.mapM f) := by
  induction as with
  | nil => exact succeeds_pure []
  | cons a as ih =>
    obtain ⟨hfirst, hrest⟩ := List.forall_mem_cons.1 h
    rw [List.mapM_cons]
    exact hfirst.bind fun b => (ih hrest).bind fun bs => succeeds_pure _

/-- Wherever the first step succeeds, the second does so from related states, and leads to related
states again. -/
def Follows (R : σ → σ → Prop) (f : StateT σ Result α) (g : StateT σ Result β) : Prop :=
  ∀ ⦃s t a s'⦄, R s t → f s = .ok (a, s') → ∃ b t', g t = .ok (b, t') ∧ R s' t'

variable {R : σ → σ → Prop} {α' β' : Type}

theorem Follows.bind {f : StateT σ Result α} {g : StateT σ Result β} {f' : α → StateT σ Result α'}
    {g' : β → StateT σ Result β'} (h : Follows R f g) (h' : ∀ a b, Follows R (f' a) (g' b)) :
    Follows R (f >>= f') (g >>= g') := by
  intro s t a' s' hR hf
  obtain ⟨a, s₁, hfirst, hrest⟩ := bind_ok.1 hf
  obtain ⟨b, t₁, hb, hR₁⟩ := h hR hfirst
  obtain ⟨b', t', hb', hR'⟩ := h' a b hR₁ hrest
  exact ⟨b', t', bind_ok.2 ⟨b, t₁, hb, hb'⟩, hR'⟩

theorem Follows.ite_bind {c : Prop} [Decidable c] {f f' : StateT σ Result α}
    {g g' : StateT σ Result β} {k : α → StateT σ Result α'} {l : β → StateT σ Result β'}
    (h : Follows R f g) (h' : Follows R f' g') (hrest : ∀ a b, Follows R (k a) (l b)) :
    Follows R (if c then f >>= k else f' >>= k) (if c then g >>= l else g' >>= l) := by
  split
  · exact h.bind hrest
  · exact h'.bind hrest

theorem follows_pure (a : α) (b : β) :
    Follows R (pure a : StateT σ Result α) (pure b : StateT σ Result β) := by
  intro s t a' s' hR h
  obtain ⟨-, rfl⟩ := pure_ok.1 h
  exact ⟨b, t, pure_ok.2 ⟨rfl, rfl⟩, hR⟩

theorem follows_throw (e : QueryError) (g : StateT σ Result β) :
    Follows R (throw e : StateT σ Result α) g :=
  fun _ _ _ _ _ h => (throw_ok.1 h).elim

/-- A step that always succeeds follows whatever step, if nothing is asked of the states. -/
theorem Succeeds.follows {g : StateT σ Result β} (h : Succeeds g) (f : StateT σ Result α) :
    Follows (fun _ _ => True) f g := by
  intro s t a s' _ _
  obtain ⟨b, t', hg⟩ := h t
  exact ⟨b, t', hg, trivial⟩

theorem Follows.succeeds {f : StateT σ Result α} {g : StateT σ Result β} {a : α}
    (h : Follows (fun _ _ => True) f g) (hf : f s = .ok (a, s')) : Succeeds g := by
  intro t
  obtain ⟨b, t', hg, -⟩ := h (t := t) trivial hf
  exact ⟨b, t', hg⟩

theorem follows_mapM {f : α → StateT σ Result β} {g : α → StateT σ Result β'} {as : List α}
    (h : ∀ a ∈ as, Follows R (f a) (g a)) : Follows R (as.mapM f) (as.mapM g) := by
  induction as with
  | nil => exact follows_pure [] []
  | cons a as ih =>
    obtain ⟨hfirst, hrest⟩ := List.forall_mem_cons.1 h
    rw [List.mapM_cons, List.mapM_cons]
    exact hfirst.bind fun b b' => (ih hrest).bind fun bs bs' => follows_pure _ _

/-! ### Steps that keep something -/

/-- Whenever the step succeeds, it leaves this view of the state as it is. -/
def Keeps {κ : Type} (view : σ → κ) (f : StateT σ Result α) : Prop :=
  ∀ ⦃s a t⦄, f s = .ok (a, t) → view t = view s

section Keeps

variable {κ : Type} {view : σ → κ}

theorem Keeps.bind {f : StateT σ Result α} {g : α → StateT σ Result β} (hf : Keeps view f)
    (hg : ∀ a, Keeps view (g a)) : Keeps view (f >>= g) := by
  intro s b s' h
  obtain ⟨a, t, ha, hb⟩ := bind_ok.1 h
  exact (hg a hb).trans (hf ha)

theorem Keeps.ite_bind {c : Prop} [Decidable c] {f f' : StateT σ Result α}
    {g : α → StateT σ Result β} (hf : Keeps view f) (hf' : Keeps view f')
    (hg : ∀ a, Keeps view (g a)) : Keeps view (if c then f >>= g else f' >>= g) := by
  split
  · exact hf.bind hg
  · exact hf'.bind hg

theorem keeps_pure (a : α) : Keeps view (pure a : StateT σ Result α) := by
  intro s b t h
  rw [(pure_ok.1 h).2]

theorem keeps_lift (r : Result α) : Keeps view (liftM r : StateT σ Result α) := by
  intro s a t h
  rw [(lift_ok.1 h).2]

theorem keeps_throw (e : QueryError) : Keeps view (throw e : StateT σ Result α) :=
  fun _ _ _ h => (throw_ok.1 h).elim

theorem keeps_modify {f : σ → σ} (h : ∀ s, view (f s) = view s) :
    Keeps view (modify f : StateT σ Result PUnit) := by
  intro s u t hf
  rw [← modify_ok.1 hf, h]

theorem keeps_mapM {f : α → StateT σ Result β} {as : List α} (h : ∀ a ∈ as, Keeps view (f a)) :
    Keeps view (as.mapM f) := by
  induction as with
  | nil => exact keeps_pure []
  | cons a as ih =>
    obtain ⟨hfirst, hrest⟩ := List.forall_mem_cons.1 h
    rw [List.mapM_cons]
    exact hfirst.bind fun b => (ih hrest).bind fun bs => keeps_pure _

end Keeps

/-! ### Steps without a state -/

theorem result_bind_ok {r : Result α} {f : α → Result β} {b : β} :
    r >>= f = .ok b ↔ ∃ a, r = .ok a ∧ f a = .ok b := by
  rcases r with e | a
  · simp [bind, Except.bind]
  · simp [bind, Except.bind]

theorem result_map_ok {r : Result α} {f : α → β} {b : β} :
    r.map f = .ok b ↔ ∃ a, r = .ok a ∧ f a = b := by
  rcases r with e | a
  · simp [Except.map]
  · simp [Except.map]

theorem result_pure_ok {a b : α} : (pure a : Result α) = .ok b ↔ a = b := by
  simp [pure, Except.pure]

theorem result_throw_ok {e : QueryError} {a : α} : (throw e : Result α) = .ok a ↔ False := by
  change (Except.error e : Result α) = _ ↔ _
  simp

theorem exists_of_toOption_map {r : Result α} {f : α → β} {b : β}
    (h : r.toOption.map f = some b) : ∃ a, r = .ok a ∧ f a = b := by
  rcases r with e | a
  · cases h
  · exact ⟨a, rfl, Option.some.inj h⟩

theorem exists_of_mem_mapM {f : α → Result β} {as : List α} {bs : List β}
    (h : as.mapM f = .ok bs) {b : β} (hb : b ∈ bs) : ∃ a ∈ as, f a = .ok b := by
  induction as generalizing bs with
  | nil =>
    obtain rfl := result_pure_ok.1 h
    cases hb
  | cons a as ih =>
    rw [List.mapM_cons] at h
    obtain ⟨b', hb', h⟩ := result_bind_ok.1 h
    obtain ⟨bs', hbs', h⟩ := result_bind_ok.1 h
    obtain rfl := result_pure_ok.1 h
    rcases List.mem_cons.1 hb with rfl | hmem
    · exact ⟨a, by simp, hb'⟩
    · obtain ⟨a', ha', hf⟩ := ih hbs' hmem
      exact ⟨a', by simp [ha'], hf⟩

theorem length_of_mapM {f : α → Result β} {as : List α} {bs : List β}
    (h : as.mapM f = .ok bs) : bs.length = as.length := by
  induction as generalizing bs with
  | nil =>
    obtain rfl := result_pure_ok.1 h
    rfl
  | cons a as ih =>
    rw [List.mapM_cons] at h
    obtain ⟨b, -, h⟩ := result_bind_ok.1 h
    obtain ⟨bs', hbs', h⟩ := result_bind_ok.1 h
    obtain rfl := result_pure_ok.1 h
    rw [List.length_cons, List.length_cons, ih hbs']

theorem result_mapM_succeeds {f : α → Result β} {as : List α}
    (h : ∀ a ∈ as, ∃ b, f a = .ok b) : ∃ bs, as.mapM f = .ok bs := by
  induction as with
  | nil => exact ⟨[], rfl⟩
  | cons a as ih =>
    obtain ⟨⟨b, hb⟩, hrest⟩ := List.forall_mem_cons.1 h
    obtain ⟨bs, hbs⟩ := ih hrest
    refine ⟨b :: bs, ?_⟩
    rw [List.mapM_cons]
    exact result_bind_ok.2 ⟨b, hb, result_bind_ok.2 ⟨bs, hbs, rfl⟩⟩

/-! ### Two runs -/

/-- Two steps fail with the same error, or succeed with related results. -/
inductive Agree (R : α → β → Prop) : Result α → Result β → Prop
  | error (e : QueryError) : Agree R (.error e) (.error e)
  | ok {a : α} {b : β} (h : R a b) : Agree R (.ok a) (.ok b)

namespace Agree

variable {R : α → β → Prop} {S : α' → β' → Prop} {r : Result α} {r' : Result β}

theorem mono {R' : α → β → Prop} (h : Agree R r r') (hR : ∀ a b, R a b → R' a b) :
    Agree R' r r' := by
  cases h with
  | error e => exact .error e
  | ok hab => exact .ok (hR _ _ hab)

theorem bind {f : α → Result α'} {g : β → Result β'} (h : Agree R r r')
    (hfg : ∀ a b, R a b → Agree S (f a) (g b)) : Agree S (r >>= f) (r' >>= g) := by
  cases h with
  | error e => exact .error e
  | ok hab => exact hfg _ _ hab

theorem map {f : α → α'} {g : β → β'} (h : Agree R r r') (hfg : ∀ a b, R a b → S (f a) (g b)) :
    Agree S (r.map f) (r'.map g) := by
  cases h with
  | error e => exact .error e
  | ok hab => exact .ok (hfg _ _ hab)

theorem foldlM {γ : Type} {f : α → γ → Result α} {g : β → γ → Result β}
    (hfg : ∀ c a b, R a b → Agree R (f a c) (g b c)) {a : α} {b : β} (h : R a b) (cs : List γ) :
    Agree R (cs.foldlM f a) (cs.foldlM g b) := by
  induction cs generalizing a b with
  | nil => exact .ok h
  | cons c cs ih => exact (hfg c a b h).bind fun _ _ hab => ih hab

end Agree

end Jpql.Step
