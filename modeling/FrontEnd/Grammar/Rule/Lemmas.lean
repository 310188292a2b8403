import FrontEnd.Grammar.Rule

/-!
# What rules leave and read

Every rule leaves a suffix of its tokens. A step that has read a token whenever it adds something
can be repeated without running out of rounds, which is the equation of `repeatedly`.
-/

namespace FrontEnd.Rule

variable {α β : Type}

@[simp] theorem pure_apply (a : α) (ts : List Token) : (pure a : Rule α) ts = .ok a ts := rfl

theorem bind_apply (r : Rule α) (f : α → Rule β) (ts : List Token) :
    (r >>= f) ts =
      match r ts with
      | .ok a rest => f a rest
      | .error problem rest => .error problem rest := by
  change EStateM.bind r f ts = _
  unfold EStateM.bind
  cases r ts with
  | ok a rest => rfl
  | error problem rest => rfl

theorem map_apply (g : α → β) (r : Rule α) (ts : List Token) :
    (g <$> r) ts =
      match r ts with
      | .ok a rest => .ok (g a) rest
      | .error problem rest => .error problem rest := by
  change EStateM.map g r ts = _
  unfold EStateM.map
  cases r ts with
  | ok a rest => rfl
  | error problem rest => rfl

theorem map_ok {g : α → β} {r : Rule α} {ts rest : List Token} {b : β}
    (h : (g <$> r) ts = .ok b rest) : ∃ a, r ts = .ok a rest ∧ g a = b := by
  rw [map_apply] at h
  split at h
  · next a left ha =>
    cases h
    exact ⟨a, ha, rfl⟩
  · cases h

/-- The tokens left by an outcome. -/
def left : EStateM.Result Problem (List Token) α → List Token
  | .ok _ rest => rest
  | .error _ rest => rest

/-- A rule that leaves a suffix of its tokens, also when it fails. -/
def Leaves (r : Rule α) : Prop := ∀ ts, left (r ts) <:+ ts

/-- A rule that has read some token whenever it succeeds. -/
def Reads (r : Rule α) : Prop := ∀ ts a rest, r ts = .ok a rest → rest.length < ts.length

theorem reads_map (g : α → β) {r : Rule α} (h : Reads r) : Reads (g <$> r) := by
  intro ts b rest hb
  obtain ⟨a, ha, -⟩ := map_ok hb
  exact h ts a rest ha

/-- A rule that has read some token whenever it finds something. -/
def Finds (r : Rule (Option α)) : Prop :=
  ∀ ts a rest, r ts = .ok (some a) rest → rest.length < ts.length

theorem Leaves.length_le {r : Rule α} (h : Leaves r) {ts rest : List Token} {a : α}
    (ha : r ts = .ok a rest) : rest.length ≤ ts.length := by
  have hs := (h ts).length_le
  rwa [ha] at hs

theorem leaves_pure (a : α) : Leaves (pure a : Rule α) := fun ts => List.suffix_refl ts

theorem leaves_fail (cause : SyntaxCause) : Leaves (fail cause : Rule α) :=
  fun ts => List.suffix_refl ts

theorem leaves_map (g : α → β) {r : Rule α} (h : Leaves r) : Leaves (g <$> r) := by
  intro ts
  have hr := h ts
  rw [map_apply]
  cases hc : r ts with
  | ok a rest => rwa [hc] at hr
  | error problem rest => rwa [hc] at hr

theorem leaves_bind {r : Rule α} {f : α → Rule β} (hr : Leaves r) (hf : ∀ a, Leaves (f a)) :
    Leaves (r >>= f) := by
  intro ts
  have h := hr ts
  rw [bind_apply]
  cases hc : r ts with
  | ok a rest =>
    rw [hc] at h
    exact (hf a rest).trans h
  | error problem rest =>
    rw [hc] at h
    exact h

theorem leaves_ite {c : Prop} [Decidable c] {r s : Rule α} (hr : Leaves r) (hs : Leaves s) :
    Leaves (if c then r else s) := by
  split
  · exact hr
  · exact hs

theorem leaves_ahead (ps : List Pattern) : Leaves (ahead ps) := fun ts => List.suffix_refl ts

theorem leaves_atEnd : Leaves atEnd := fun ts => List.suffix_refl ts

theorem leaves_aheadOneOf (texts : List String) : Leaves (aheadOneOf texts) :=
  fun ts => List.suffix_refl ts

theorem leaves_accept (ps : List Pattern) : Leaves (accept ps) := by
  intro ts
  unfold accept
  split
  · exact List.drop_suffix _ _
  · exact List.suffix_refl _

theorem leaves_expect (p : Pattern) (cause : SyntaxCause) : Leaves (expect p cause) := by
  intro ts
  unfold expect
  split
  · exact List.suffix_refl _
  · split
    · exact List.suffix_cons _ _
    · exact List.suffix_refl _

theorem leaves_name (cause : SyntaxCause) : Leaves (name cause) :=
  leaves_bind (leaves_expect _ _) fun _ => leaves_pure _

theorem leaves_behind (p : Pattern) {r : Rule α} (h : Leaves r) : Leaves (behind p r) :=
  leaves_bind (leaves_accept _) fun _ =>
    leaves_ite (leaves_bind h fun _ => leaves_pure _) (leaves_pure _)

theorem leaves_roundsOver {step : α → Rule (Option α)} (h : ∀ a, Leaves (step a))
    (fuel : List Token) (a : α) : Leaves (roundsOver step fuel a) := by
  induction fuel generalizing a with
  | nil =>
    refine leaves_bind (h a) fun o => ?_
    cases o with
    | none => exact leaves_pure _
    | some b => exact leaves_pure _
  | cons t fuel ih =>
    refine leaves_bind (h a) fun o => ?_
    cases o with
    | none => exact leaves_pure _
    | some b => exact ih b

theorem leaves_repeatedly {step : α → Rule (Option α)} (h : ∀ a, Leaves (step a)) (a : α) :
    Leaves (repeatedly step a) := fun ts => leaves_roundsOver h ts a ts

theorem leaves_many {item : Rule (Option α)} (h : Leaves item) : Leaves (many item) := by
  refine leaves_bind (leaves_repeatedly (fun read => leaves_bind h fun o => ?_) _)
    fun _ => leaves_pure _
  cases o with
  | none => exact leaves_pure _
  | some a => exact leaves_pure _

theorem reads_expect (p : Pattern) (cause : SyntaxCause) : Reads (expect p cause) := by
  intro ts t rest h
  unfold expect at h
  split at h
  · cases h
  · split at h
    · cases h
      simp
    · cases h

theorem reads_fail (cause : SyntaxCause) : Reads (fail cause : Rule α) := fun _ _ _ h => by
  cases h

theorem reads_bind_left {r : Rule α} {f : α → Rule β} (hr : Reads r) (hf : ∀ a, Leaves (f a)) :
    Reads (r >>= f) := by
  intro ts b rest h
  rw [bind_apply] at h
  cases hc : r ts with
  | ok a middle =>
    rw [hc] at h
    exact Nat.lt_of_le_of_lt ((hf a).length_le h) (hr ts a middle hc)
  | error problem middle =>
    rw [hc] at h
    cases h

theorem reads_bind_right {r : Rule α} {f : α → Rule β} (hr : Leaves r) (hf : ∀ a, Reads (f a)) :
    Reads (r >>= f) := by
  intro ts b rest h
  rw [bind_apply] at h
  cases hc : r ts with
  | ok a middle =>
    rw [hc] at h
    exact Nat.lt_of_lt_of_le (hf a middle b rest h) (hr.length_le hc)
  | error problem middle =>
    rw [hc] at h
    cases h

theorem reads_name (cause : SyntaxCause) : Reads (name cause) :=
  reads_bind_left (reads_expect _ _) fun _ => leaves_pure _

/-- After a successful `accept` of at least one token, a token has been read. -/
theorem accept_true {p : Pattern} {ps : List Pattern} {ts rest : List Token}
    (h : accept (p :: ps) ts = .ok true rest) : rest.length < ts.length := by
  unfold accept at h
  split at h
  · next hs =>
    cases h
    cases ts with
    | nil => simp [startsAs] at hs
    | cons t ts =>
      simp only [List.length_cons, List.drop_succ_cons, List.length_drop]
      omega
  · cases h

theorem finds_behind (p : Pattern) {r : Rule α} (hr : Leaves r) : Finds (behind p r) := by
  intro ts a rest h
  unfold behind at h
  rw [bind_apply] at h
  cases hc : accept [p] ts with
  | error problem middle =>
    rw [hc] at h
    cases h
  | ok b middle =>
    rw [hc] at h
    cases b with
    | true =>
      have hl := (leaves_bind hr fun a => leaves_pure (some a)).length_le h
      exact Nat.lt_of_le_of_lt hl (accept_true hc)
    | false => cases h

/-- One rule behind its keyword, another one if the keyword is not next. -/
theorem leaves_accept_else {ps : List Pattern} {r s : Rule α} (hr : Leaves r) (hs : Leaves s) :
    Leaves (accept ps >>= fun b => if b = true then r else s) :=
  leaves_bind (leaves_accept _) fun _ => leaves_ite hr hs

theorem reads_accept_else {p : Pattern} {r s : Rule α} (hr : Leaves r) (hs : Reads s) :
    Reads (accept [p] >>= fun b => if b = true then r else s) := by
  intro ts a rest h
  rw [bind_apply] at h
  cases hc : accept [p] ts with
  | error problem middle =>
    rw [hc] at h
    cases h
  | ok b middle =>
    rw [hc] at h
    cases b with
    | true => exact Nat.lt_of_le_of_lt (hr.length_le h) (accept_true hc)
    | false => exact Nat.lt_of_lt_of_le (hs middle a rest h) ((leaves_accept _).length_le hc)

theorem roundsOver_of_length_le {step : α → Rule (Option α)} (h : ∀ a, Finds (step a))
    {fuel more ts : List Token} (hf : ts.length ≤ fuel.length) (hm : ts.length ≤ more.length)
    (a : α) : roundsOver step fuel a ts = roundsOver step more a ts := by
  induction fuel generalizing more ts a with
  | nil =>
    have ht : ts.length = 0 := by simpa using hf
    cases more with
    | nil => rfl
    | cons m more =>
      change (step a >>= _) ts = (step a >>= _) ts
      rw [bind_apply, bind_apply]
      cases hc : step a ts with
      | error problem rest => rfl
      | ok o rest =>
        cases o with
        | none => rfl
        | some b =>
          have := h a ts b rest hc
          omega
  | cons f fuel ih =>
    cases more with
    | nil =>
      have ht : ts.length = 0 := by simpa using hm
      change (step a >>= _) ts = (step a >>= _) ts
      rw [bind_apply, bind_apply]
      cases hc : step a ts with
      | error problem rest => rfl
      | ok o rest =>
        cases o with
        | none => rfl
        | some b =>
          have := h a ts b rest hc
          omega
    | cons m more =>
      change (step a >>= _) ts = (step a >>= _) ts
      rw [bind_apply, bind_apply]
      cases hc : step a ts with
      | error problem rest => rfl
      | ok o rest =>
        cases o with
        | none => rfl
        | some b =>
          have hb := h a ts b rest hc
          simp only [List.length_cons] at hf hm
          exact ih (by omega) (by omega) b

/-- A step that has read a token whenever it adds something is repeated until it adds nothing. -/
theorem repeatedly_apply {step : α → Rule (Option α)} (h : ∀ a, Finds (step a)) (a : α)
    (ts : List Token) :
    repeatedly step a ts =
      match step a ts with
      | .ok none rest => .ok a rest
      | .ok (some b) rest => repeatedly step b rest
      | .error problem rest => .error problem rest := by
  have hr : roundsOver step ts a ts = roundsOver step (⟨.operator, "", 0⟩ :: ts) a ts :=
    roundsOver_of_length_le h (Nat.le_refl _) (Nat.le_succ _) a
  unfold repeatedly
  rw [hr]
  change (step a >>= _) ts = _
  rw [bind_apply]
  cases hc : step a ts with
  | error problem rest => rfl
  | ok o rest =>
    cases o with
    | none => rfl
    | some b =>
      exact roundsOver_of_length_le h (Nat.le_of_lt (h a ts b rest hc)) (Nat.le_refl _) b

end FrontEnd.Rule
