import FrontEnd.Proofs.Prefix.Lookahead

/-!
# Failed rules can be completed

Where a rule has failed, what it has read can be continued by tokens of the lexer so that the rule
succeeds. The judgment is stated for two rules, of which the second one may go deeper than the
first, and is closed under the ways of composing rules.
-/

namespace FrontEnd

/-- Tokens that the lexer makes of their own texts. -/
def AllMade (ts : List Token) : Prop := ∀ t ∈ ts, t.Made

lemma allMade_append {ts us : List Token} (ht : AllMade ts) (hu : AllMade us) :
    AllMade (ts ++ us) :=
  List.forall_mem_append.mpr ⟨ht, hu⟩

lemma allMade_cons {t : Token} {ts : List Token} (ht : t.Made) (hts : AllMade ts) :
    AllMade (t :: ts) :=
  List.forall_mem_cons.mpr ⟨ht, hts⟩

lemma allMade_nil : AllMade [] := List.forall_mem_nil _

namespace Rule

variable {α β : Type} {F S : List Token → Prop}

/-- That a rule succeeds on some tokens in front of all that may follow. They begin as wanted. -/
def Finishes (r : Rule α) (F S : List Token → Prop) : Prop :=
  ∃ E a, AllMade E ∧ ∀ U, F U → S (E ++ U) ∧ r (E ++ U) = .ok a U

/-- That wherever the first rule fails, the second one succeeds on the tokens read and some more, in
front of all that may follow. These begin as wanted if they are all there is. -/
def Resumes (r r' : Rule α) (F S : List Token → Prop) : Prop :=
  ∀ (c rest : List Token) (cause : SyntaxCause), cause ≠ .nestingTooDeep →
    r (c ++ rest) = .error (.syntactic cause) rest →
    ∃ E a, AllMade E ∧ ∀ U, F U → (c = [] → S (E ++ U)) ∧ r' (c ++ (E ++ U)) = .ok a U

structure Completable (r r' : Rule α) (F S : List Token → Prop) : Prop where
  fresh : Finishes r' F S
  resumed : Resumes r r' F S

lemma Resumes.mono {r r' : Rule α} {F' S' : List Token → Prop} (h : Resumes r r' F S)
    (hF : ∀ U, F' U → F U) (hS : ∀ V, S V → S' V) : Resumes r r' F' S' := by
  intro c rest cause hcause he
  obtain ⟨E, a, hE, hrun⟩ := h _ _ _ hcause he
  exact ⟨E, a, hE, fun U hU =>
    ⟨fun hc => hS _ ((hrun U (hF U hU)).1 hc), (hrun U (hF U hU)).2⟩⟩

lemma Completable.mono {r r' : Rule α} {F' S' : List Token → Prop} (h : Completable r r' F S)
    (hF : ∀ U, F' U → F U) (hS : ∀ V, S V → S' V) : Completable r r' F' S' where
  fresh := by
    obtain ⟨E, a, hE, hrun⟩ := h.fresh
    exact ⟨E, a, hE, fun U hU => ⟨hS _ (hrun U (hF U hU)).1, (hrun U (hF U hU)).2⟩⟩
  resumed := h.resumed.mono hF hS

lemma resumes_pure (a : α) (r : Rule α) (F S : List Token → Prop) : Resumes (pure a) r F S := by
  intro c rest cause _ h
  cases h

lemma completable_pure (a : α) (F : List Token → Prop) :
    Completable (pure a) (pure a) F F where
  fresh := ⟨[], a, allMade_nil, fun _ hU => ⟨hU, rfl⟩⟩
  resumed := resumes_pure a _ F F

/-- Where no depth is left, nothing has failed but for this. -/
lemma resumes_nested (r : Rule α) (F S : List Token → Prop) :
    Resumes (fail .nestingTooDeep) r F S := by
  intro c rest cause hcause h
  injection h with hproblem
  injection hproblem with hproblem
  exact absurd hproblem.symm hcause

lemma resumes_bind {r r' : Rule α} {f f' : α → Rule β} {R : α → List Token → Prop}
    {Fr Sr : List Token → Prop} {Sf : α → List Token → Prop} (hl : Lookahead r r' R)
    (hlf : ∀ a, Leaves (f a)) (hr : Resumes r r' Fr Sr)
    (hf : ∀ a, Completable (f a) (f' a) F (Sf a)) (hmiddle : ∀ a V, Sf a V → Fr V ∧ R a V)
    (hSr : ∀ V, Sr V → S V) (hSf : Reads r ∨ ∀ a V, Sf a V → S V) :
    Resumes (r >>= f) (r' >>= f') F S := by
  intro c rest cause hcause h
  obtain he | ⟨a, middle, ha, he⟩ := bind_error.mp h
  · obtain ⟨E₁, a, hE₁, hfirst⟩ := hr _ _ _ hcause he
    obtain ⟨E₂, b, hE₂, hsecond⟩ := (hf a).fresh
    refine ⟨E₁ ++ E₂, b, allMade_append hE₁ hE₂, fun U hU => ?_⟩
    obtain ⟨hS₂, hrun₂⟩ := hsecond U hU
    obtain ⟨hS₁, hrun₁⟩ := hfirst (E₂ ++ U) (hmiddle a _ hS₂).1
    rw [List.append_assoc]
    exact ⟨fun hc => hSr _ (hS₁ hc), (bind_of_ok hrun₁ f').trans hrun₂⟩
  · obtain ⟨c₁, c₂, rfl, rfl⟩ := split_read (leaves_ok hl.leaves ha) (leaves_error (hlf a) he)
    obtain ⟨E, b, hE, hrun⟩ := (hf a).resumed _ _ _ hcause he
    refine ⟨E, b, hE, fun U hU => ?_⟩
    obtain ⟨hS₂, hrun₂⟩ := hrun U hU
    rw [List.append_assoc] at ha ⊢
    have hnext : Agree 1 (c₂ ++ rest) (c₂ ++ (E ++ U)) ∨ R a (c₂ ++ (E ++ U)) := by
      by_cases hne : c₂ = []
      · subst hne
        exact .inr (hmiddle a _ (hS₂ rfl)).2
      · exact .inl (Agree.of_read (Alike.refl c₂) hne _ _)
    refine ⟨fun hc => ?_, (bind_of_ok (hl.ok ha (Alike.refl c₁) hnext) f').trans hrun₂⟩
    obtain ⟨rfl, rfl⟩ := List.append_eq_nil_iff.mp hc
    obtain hreads | hS := hSf
    · have := hreads _ _ _ ha
      simp at this
    · exact hS a _ (hS₂ rfl)

lemma completable_bind {r r' : Rule α} {f f' : α → Rule β} {R : α → List Token → Prop}
    {Fr Sr : List Token → Prop} {Sf : α → List Token → Prop} (hl : Lookahead r r' R)
    (hlf : ∀ a, Leaves (f a)) (hr : Completable r r' Fr Sr)
    (hf : ∀ a, Completable (f a) (f' a) F (Sf a)) (hmiddle : ∀ a V, Sf a V → Fr V ∧ R a V)
    (hSr : ∀ V, Sr V → S V) (hSf : Reads r ∨ ∀ a V, Sf a V → S V) :
    Completable (r >>= f) (r' >>= f') F S where
  fresh := by
    obtain ⟨E₁, a, hE₁, hfirst⟩ := hr.fresh
    obtain ⟨E₂, b, hE₂, hsecond⟩ := (hf a).fresh
    refine ⟨E₁ ++ E₂, b, allMade_append hE₁ hE₂, fun U hU => ?_⟩
    obtain ⟨hS₂, hrun₂⟩ := hsecond U hU
    obtain ⟨hS₁, hrun₁⟩ := hfirst (E₂ ++ U) (hmiddle a _ hS₂).1
    rw [List.append_assoc]
    exact ⟨hSr _ hS₁, (bind_of_ok hrun₁ f').trans hrun₂⟩
  resumed := resumes_bind hl hlf hr.resumed hf hmiddle hSr hSf

lemma resumes_then_pure {r r' : Rule α} (g : α → β) (hr : Resumes r r' F S) :
    Resumes (r >>= fun a => pure (g a)) (r' >>= fun a => pure (g a)) F S := by
  intro c rest cause hcause h
  obtain he | ⟨a, middle, -, he⟩ := bind_error.mp h
  · obtain ⟨E, a, hE, hrun⟩ := hr _ _ _ hcause he
    exact ⟨E, g a, hE, fun U hU => ⟨(hrun U hU).1, bind_of_ok (hrun U hU).2 _⟩⟩
  · cases he

lemma completable_then_pure {r r' : Rule α} (g : α → β) (hr : Completable r r' F S) :
    Completable (r >>= fun a => pure (g a)) (r' >>= fun a => pure (g a)) F S where
  fresh := by
    obtain ⟨E, a, hE, hrun⟩ := hr.fresh
    exact ⟨E, g a, hE, fun U hU => ⟨(hrun U hU).1, bind_of_ok (hrun U hU).2 _⟩⟩
  resumed := resumes_then_pure g hr.resumed

/-- An expected token is written where it is missing. -/
lemma completable_expect_then {p : Pattern} {t : Token} (ht : t.Made) (hp : p.accepts t = true)
    (cause : SyntaxCause) {k k' : Rule α} (hlk : Leaves k) (hk : Completable k k' F S) :
    Completable (expect p cause >>= fun _ => k) (expect p cause >>= fun _ => k') F
      fun V => V.head? = some t where
  fresh := by
    obtain ⟨E, a, hE, hrun⟩ := hk.fresh
    exact ⟨t :: E, a, allMade_cons ht hE, fun U hU =>
      ⟨rfl, (bind_of_ok (expect_of hp cause _) _).trans (hrun U hU).2⟩⟩
  resumed := by
    intro c rest cause' hcause h
    obtain he | ⟨u, middle, hu, he⟩ := bind_error.mp h
    · obtain ⟨-, hread, -⟩ := expect_error.mp he
      obtain rfl := List.append_left_eq_self.mp hread
      obtain ⟨E, a, hE, hrun⟩ := hk.fresh
      exact ⟨t :: E, a, allMade_cons ht hE, fun U hU =>
        ⟨fun _ => rfl, (bind_of_ok (expect_of hp cause _) _).trans (hrun U hU).2⟩⟩
    · obtain ⟨hts, hpu⟩ := expect_ok.mp hu
      obtain ⟨c₂, rfl, rfl⟩ := first_read hts (leaves_error hlk he)
      obtain ⟨E, a, hE, hrun⟩ := hk.resumed _ _ _ hcause he
      exact ⟨E, a, hE, fun U hU => ⟨fun hc => absurd hc (List.cons_ne_nil u c₂),
        (bind_of_ok (expect_of hpu cause _) _).trans (hrun U hU).2⟩⟩

lemma completable_name {t : Token} (ht : t.Made) (hk : t.kind = .identifier) (cause : SyntaxCause)
    (F : List Token → Prop) :
    Completable (name cause) (name cause) F fun V => V.head? = some t where
  fresh := ⟨[t], t.text, allMade_cons ht allMade_nil, fun U _ => ⟨rfl, name_of hk cause U⟩⟩
  resumed := by
    intro c rest cause' hcause h
    obtain he | ⟨u, middle, -, he⟩ := bind_error.mp h
    · obtain ⟨-, hread, -⟩ := expect_error.mp he
      obtain rfl := List.append_left_eq_self.mp hread
      exact ⟨[t], t.text, allMade_cons ht allMade_nil, fun U _ =>
        ⟨fun _ => rfl, name_of hk cause U⟩⟩
    · cases he

/-- That a pattern accepts no first token. -/
abbrev NotNext (p : Pattern) (ts : List Token) : Prop := ∀ t ∈ ts.head?, p.accepts t = false

lemma resumes_accept_else {p : Pattern} {r r' t t' : Rule α} {S' : List Token → Prop}
    (hlr : Leaves r) (hr : Resumes r r' F S') (ht : Resumes t t' F S)
    (hS : ∀ V, S V → NotNext p V) :
    Resumes (accept [p] >>= fun b => if b = true then r else t)
      (accept [p] >>= fun b => if b = true then r' else t') F S := by
  intro c rest cause hcause h
  obtain he | ⟨b, middle, hb, he⟩ := bind_error.mp h
  · unfold accept at he
    split at he <;> cases he
  · obtain ⟨rfl, u, hts, hp⟩ | ⟨rfl, rfl, hno⟩ := accept_ok.mp hb
    · obtain ⟨c₂, rfl, rfl⟩ := first_read hts (leaves_error hlr he)
      obtain ⟨E, a, hE, hrun⟩ := hr _ _ _ hcause he
      exact ⟨E, a, hE, fun U hU => ⟨fun hc => absurd hc (List.cons_ne_nil u c₂),
        (bind_of_ok (accept_of hp _) _).trans (hrun U hU).2⟩⟩
    · obtain ⟨E, a, hE, hrun⟩ := ht _ _ _ hcause he
      refine ⟨E, a, hE, fun U hU => ⟨(hrun U hU).1, ?_⟩⟩
      have hnext : NotNext p (c ++ (E ++ U)) := by
        cases c with
        | nil => exact hS _ ((hrun U hU).1 rfl)
        | cons u c => exact hno
      exact (bind_of_ok (accept_of_not hnext) _).trans (hrun U hU).2

/-- A test of what has been read, or of its completion if nothing has. -/
lemma Tests.completed {test : Rule Bool} {q : List Token → Bool} (h : Tests test q) {b : Bool}
    {c rest V : List Token} (hread : q (c ++ rest) = b) (hV : c = [] → q V = b) :
    test (c ++ V) = .ok b (c ++ V) := by
  have hq : q (c ++ V) = b := by
    by_cases hne : c = []
    · subst hne
      exact hV rfl
    · rw [← hread]
      exact h.congr _ _ (Agree.of_read (Alike.refl c) hne V rest)
  rw [h.value, hq]

lemma resumes_test {test : Rule Bool} {q : List Token → Bool} (h : Tests test q)
    {k k' : Bool → Rule α} (hk : ∀ b, Resumes (k b) (k' b) F fun V => q V = b ∧ S V) :
    Resumes (test >>= k) (test >>= k') F S := by
  intro c rest cause hcause he
  obtain he | ⟨b, middle, hb, he⟩ := bind_error.mp he
  · rw [h.value] at he
    cases he
  · rw [h.value] at hb
    injection hb with hb hmiddle
    subst hmiddle
    obtain ⟨E, a, hE, hrun⟩ := hk b _ _ _ hcause he
    refine ⟨E, a, hE, fun U hU => ⟨fun hc => ((hrun U hU).1 hc).2, ?_⟩⟩
    have htest := h.completed hb fun hc => ((hrun U hU).1 hc).1
    exact (bind_of_ok htest _).trans (hrun U hU).2

lemma completable_accept_else {p : Pattern} {r r' t t' : Rule α} {S' : List Token → Prop}
    (hlr : Leaves r) (hr : Resumes r r' F S') (ht : Completable t t' F S)
    (hS : ∀ V, S V → NotNext p V) :
    Completable (accept [p] >>= fun b => if b = true then r else t)
      (accept [p] >>= fun b => if b = true then r' else t') F S where
  fresh := by
    obtain ⟨E, a, hE, hrun⟩ := ht.fresh
    exact ⟨E, a, hE, fun U hU => ⟨(hrun U hU).1,
      (bind_of_ok (accept_of_not (hS _ (hrun U hU).1)) _).trans (hrun U hU).2⟩⟩
  resumed := resumes_accept_else hlr hr ht.resumed hS

lemma completable_behind {p : Pattern} {r r' : Rule α} (hlr : Leaves r) (hr : Resumes r r' F S)
    (hF : ∀ U, F U → NotNext p U) : Completable (behind p r) (behind p r') F F :=
  completable_accept_else (leaves_bind hlr fun _ => leaves_pure _) (resumes_then_pure some hr)
    (completable_pure none F) hF

/-- A repetition is completed in the round that fails, and ends there. -/
lemma completable_repeatedly {step step' : α → Rule (Option α)} {R : Option α → List Token → Prop}
    (hfinds : ∀ a, Finds (step a)) (hfinds' : ∀ a, Finds (step' a))
    (hl : ∀ a, Lookahead (step a) (step' a) R) (hr : ∀ a, Resumes (step a) (step' a) F S)
    (hstop : ∀ a U, F U → step' a U = .ok none U) (hF : ∀ U, F U → S U)
    (hR : ∀ b V, S V → R (some b) V) (a : α) :
    Completable (repeatedly step a) (repeatedly step' a) F S where
  fresh := ⟨[], a, allMade_nil, fun U hU =>
    ⟨hF U hU, repeatedly_of_none hfinds' (hstop a U hU)⟩⟩
  resumed := by
    intro c rest cause hcause h
    induction hn : c.length using Nat.strong_induction_on generalizing c a with
    | _ n ih =>
      rw [repeatedly_apply hfinds] at h
      split at h
      · cases h
      · next b middle hs =>
        have hlt := hfinds a _ b middle hs
        obtain ⟨c₁, c₂, rfl, rfl⟩ := split_read (leaves_ok (hl a).leaves hs)
          (leaves_error (leaves_repeatedly (fun a => (hl a).leaves) b) h)
        simp only [List.length_append] at hlt hn
        obtain ⟨E, d, hE, hrun⟩ := ih c₂.length (by omega) b c₂ h rfl
        refine ⟨E, d, hE, fun U hU => ?_⟩
        obtain ⟨hS, hrest⟩ := hrun U hU
        rw [List.append_assoc] at hs ⊢
        have hnext : Agree 1 (c₂ ++ rest) (c₂ ++ (E ++ U)) ∨ R (some b) (c₂ ++ (E ++ U)) := by
          by_cases hne : c₂ = []
          · subst hne
            exact .inr (hR b _ (hS rfl))
          · exact .inl (Agree.of_read (Alike.refl c₂) hne _ _)
        refine ⟨fun hc => hS (List.append_eq_nil_iff.mp hc).2, ?_⟩
        rw [repeatedly_of_some hfinds' ((hl a).ok hs (Alike.refl c₁) hnext)]
        exact hrest
      · next problem middle hs =>
        injection h with hp hmiddle
        subst hp hmiddle
        obtain ⟨E, o, hE, hrun⟩ := hr a _ _ _ hcause hs
        -- The completed round may be the last one itself, or one more round ends the repetition.
        cases o with
        | none => exact ⟨E, a, hE, fun U hU =>
            ⟨(hrun U hU).1, repeatedly_of_none hfinds' (hrun U hU).2⟩⟩
        | some b =>
          refine ⟨E, b, hE, fun U hU => ⟨(hrun U hU).1, ?_⟩⟩
          rw [repeatedly_of_some hfinds' (hrun U hU).2]
          exact repeatedly_of_none hfinds' (hstop b U hU)

lemma resumes_collect {item item' : Rule (Option α)} (h : Resumes item item' F S)
    (read : List α) : Resumes (collect item read) (collect item' read) F S := by
  intro c rest cause hcause he
  rw [collect_apply] at he
  split at he
  · cases he
  · cases he
  · next problem middle hi =>
    injection he with hp hmiddle
    subst hp hmiddle
    obtain ⟨E, o, hE, hrun⟩ := h _ _ _ hcause hi
    cases o with
    | none => exact ⟨E, none, hE, fun U hU =>
        ⟨(hrun U hU).1, by rw [collect_apply, (hrun U hU).2]⟩⟩
    | some a => exact ⟨E, some (a :: read), hE, fun U hU =>
        ⟨(hrun U hU).1, by rw [collect_apply, (hrun U hU).2]⟩⟩

lemma completable_many {item item' : Rule (Option α)} {R : Option α → List Token → Prop}
    (hfinds : Finds item) (hfinds' : Finds item') (hl : Lookahead item item' R)
    (hr : Resumes item item' F S) (hstop : ∀ U, F U → item' U = .ok none U)
    (hF : ∀ U, F U → S U) (hR : ∀ b V, S V → R (some b) V) :
    Completable (many item) (many item') F S := by
  rw [many_eq, many_eq]
  refine completable_then_pure List.reverse (completable_repeatedly (finds_collect hfinds)
    (finds_collect hfinds') (lookahead_collect hl) (resumes_collect hr) ?_ hF ?_ [])
  · intro read U hU
    rw [collect_apply, hstop U hU]
  · intro as V hV a _
    exact hR a V hV

end Rule

end FrontEnd
