import FrontEnd.Proofs.Grammar.Runs

/-!
# Rules look one token ahead

What a rule makes of the tokens it reads depends on them, on no token behind the next one, and on
nothing but kinds and texts. The judgment is stated for two rules, of which the second one may go
deeper than the first, and is closed under the ways of composing rules. The place of a binding in
the header of a loop looks two tokens ahead if it fails at a name.
-/

namespace FrontEnd

/-- Tokens of the same kinds and texts. -/
def Alike (ts us : List Token) : Prop := ts.map Token.look = us.map Token.look

/-- That two lists of tokens are alike as far as their first tokens. -/
def Agree (n : Nat) (ts us : List Token) : Prop := Alike (ts.take n) (us.take n)

namespace Alike

lemma refl (ts : List Token) : Alike ts ts := rfl

lemma nil {us : List Token} (h : Alike [] us) : us = [] := by
  simpa [Alike] using h

lemma cons {t : Token} {ts us : List Token} (h : Alike (t :: ts) us) :
    ∃ u us', us = u :: us' ∧ t.look = u.look ∧ Alike ts us' := by
  cases us with
  | nil => simp [Alike] at h
  | cons u us =>
    simp only [Alike, List.map_cons, List.cons.injEq] at h
    exact ⟨u, us, rfl, h.1, h.2⟩

lemma append {xs ys us : List Token} (h : Alike (xs ++ ys) us) :
    ∃ xs' ys', us = xs' ++ ys' ∧ Alike xs xs' ∧ Alike ys ys' := by
  unfold Alike at h
  rw [List.map_append] at h
  obtain ⟨xs', ys', rfl, hx, hy⟩ := List.map_eq_append_iff.mp h.symm
  exact ⟨xs', ys', rfl, hx.symm, hy.symm⟩

lemma agree {ts us : List Token} (h : Alike ts us) (n : Nat) : Agree n ts us := by
  unfold Agree Alike
  rw [List.map_take, List.map_take, h]

/-- Tokens changed in nothing but their places. -/
lemma map (f : Token → Token) (hf : ∀ t, (f t).look = t.look) (ts : List Token) :
    Alike ts (ts.map f) := by
  rw [Alike, List.map_map]
  exact List.map_congr_left fun t _ => (hf t).symm

lemma length_eq {ts us : List Token} (h : Alike ts us) : ts.length = us.length := by
  simpa using congrArg List.length h

end Alike

lemma alike_placed (start : Nat) (ts : List Token) : Alike ts (placed start ts) :=
  (look_placed start ts).symm

namespace Agree

/-- What is read decides if it is anything. -/
lemma of_read {c c' : List Token} (h : Alike c c') (hne : c ≠ []) (ts us : List Token) :
    Agree 1 (c ++ ts) (c' ++ us) := by
  cases c with
  | nil => exact absurd rfl hne
  | cons t c =>
    obtain ⟨t', c'', rfl, ht, -⟩ := h.cons
    simpa [Agree, Alike] using ht

lemma of_alike {c c' : List Token} (h : Alike c c') {ts us : List Token} (hr : Agree 1 ts us) :
    Agree 1 (c ++ ts) (c' ++ us) := by
  cases c with
  | nil =>
    obtain rfl := h.nil
    exact hr
  | cons t c => exact of_read h (List.cons_ne_nil t c) ts us

lemma head {ts us : List Token} (h : Agree 1 ts us) {t : Token} (ht : t ∈ ts.head?) :
    ∃ u ∈ us.head?, t.look = u.look := by
  cases ts with
  | nil => cases ht
  | cons v ts =>
    cases ht
    have hone : Alike [t] (us.take 1) := h
    obtain ⟨u, us', hu, hlook, -⟩ := hone.cons
    cases us with
    | nil => cases hu
    | cons w us =>
      cases hu
      exact ⟨u, rfl, hlook⟩

lemma symm {n : Nat} {ts us : List Token} (h : Agree n ts us) : Agree n us ts := Eq.symm h

lemma isEmpty {ts us : List Token} (h : Agree 1 ts us) : ts.isEmpty = us.isEmpty := by
  cases ts with
  | nil =>
    cases us with
    | nil => rfl
    | cons u us => cases h
  | cons t ts =>
    cases us with
    | nil => cases h
    | cons u us => rfl

end Agree

lemma Pattern.accepts_congr (p : Pattern) {t u : Token} (h : t.look = u.look) :
    p.accepts t = p.accepts u := by
  simp only [Token.look, Prod.mk.injEq] at h
  cases p with
  | text s => simp [Pattern.accepts, h.2]
  | kind k => simp [Pattern.accepts, h.1]

lemma constant?_congr {t u : Token} (h : t.look = u.look) : constant? t = constant? u := by
  simp only [Token.look, Prod.mk.injEq] at h
  simp only [constant?, h.1, h.2]

/-- That a name and an equals sign are next. -/
def BindingNext (ts : List Token) : Prop :=
  ∃ n q us, ts = n :: q :: us ∧ n.kind = .identifier ∧ q.text = "="

lemma not_bindingNext_of_head {ts : List Token} (h : ∀ t ∈ ts.head?, t.kind ≠ .identifier) :
    ¬BindingNext ts := by
  rintro ⟨n, q, us, rfl, hn, -⟩
  exact h n rfl hn

lemma BindingNext.congr {ts us : List Token} (h : Agree 2 ts us) (hb : BindingNext ts) :
    BindingNext us := by
  obtain ⟨n, q, ts, rfl, hn, hq⟩ := hb
  have htwo : Alike [n, q] (us.take 2) := h
  obtain ⟨n', us', hus, hnn, htwo⟩ := htwo.cons
  obtain ⟨q', us'', rfl, hqq, -⟩ := htwo.cons
  simp only [Token.look, Prod.mk.injEq] at hnn hqq
  have hdrop := List.take_append_drop 2 us
  rw [hus] at hdrop
  exact ⟨n', q', us'' ++ us.drop 2, hdrop.symm, hnn.1 ▸ hn, hqq.2 ▸ hq⟩

/-- That a failure lies in front of a name in the place of a binding, without an equals sign behind
it: behind the parenthesis that opens the header of a loop, or behind the semicolon in front of its
increment. -/
def AtBinding (cause : SyntaxCause) (read rest : List Token) : Prop :=
  ((cause = .initializationEnd ∧ ∃ t ∈ read.getLast?, t.text = "(") ∨
    (cause = .headerClose ∧ ∃ t ∈ read.getLast?, t.text = ";")) ∧
  (∃ n ∈ rest.head?, n.kind = .identifier) ∧ ¬BindingNext rest

/-- That the tokens in front of which a failure lies agree as far as the failure depends on them. -/
def Forced (cause : SyntaxCause) (read rest rest' : List Token) : Prop :=
  Agree 1 rest rest' ∧ (AtBinding cause read rest → Agree 2 rest rest')

lemma AtBinding.append {cause : SyntaxCause} {xs ys rest : List Token}
    (h : AtBinding cause ys rest) : AtBinding cause (xs ++ ys) rest := by
  have hlast : ∀ t ∈ ys.getLast?, t ∈ (xs ++ ys).getLast? := by
    intro t ht
    rw [List.getLast?_append, Option.mem_def.mp ht]
    rfl
  obtain ⟨⟨hc, t, ht, htext⟩ | ⟨hc, t, ht, htext⟩, hn⟩ := h
  · exact ⟨.inl ⟨hc, t, hlast t ht, htext⟩, hn⟩
  · exact ⟨.inr ⟨hc, t, hlast t ht, htext⟩, hn⟩

lemma Forced.of_append {cause : SyntaxCause} {xs ys rest rest' : List Token}
    (h : Forced cause (xs ++ ys) rest rest') : Forced cause ys rest rest' :=
  ⟨h.1, fun hb => h.2 hb.append⟩

namespace Rule

variable {α β : Type}

/-- That a second rule does what a first one does with tokens alike, if the next token is alike or
may follow the value. -/
structure Lookahead (r r' : Rule α) (F : α → List Token → Prop) : Prop where
  leaves : Leaves r
  ok : ∀ {c rest : List Token} {a : α}, r (c ++ rest) = .ok a rest →
    ∀ {c' rest' : List Token}, Alike c c' → Agree 1 rest rest' ∨ F a rest' →
      r' (c' ++ rest') = .ok a rest'
  error : ∀ {c rest : List Token} {cause : SyntaxCause}, cause ≠ .nestingTooDeep →
    r (c ++ rest) = .error (.syntactic cause) rest →
    ∀ {c' rest' : List Token}, Alike c c' → Forced cause c rest rest' →
      r' (c' ++ rest') = .error (.syntactic cause) rest'

lemma leaves_ok {r : Rule α} (h : Leaves r) {ts rest : List Token} {a : α}
    (ha : r ts = .ok a rest) : rest <:+ ts := by
  have := h ts
  rwa [ha] at this

lemma leaves_error {r : Rule α} (h : Leaves r) {ts rest : List Token} {problem : Problem}
    (he : r ts = .error problem rest) : rest <:+ ts := by
  have := h ts
  rwa [he] at this

lemma split_read {c middle rest : List Token} (h : middle <:+ c ++ rest) (hr : rest <:+ middle) :
    ∃ c₁ c₂, c = c₁ ++ c₂ ∧ middle = c₂ ++ rest := by
  obtain ⟨c₂, rfl⟩ := hr
  obtain ⟨c₁, h⟩ := h
  rw [← List.append_assoc] at h
  exact ⟨c₁, c₂, (List.append_cancel_right h).symm, rfl⟩

lemma Lookahead.mono {r r' : Rule α} {F G : α → List Token → Prop} (h : Lookahead r r' F)
    (hG : ∀ a U, G a U → F a U) : Lookahead r r' G where
  leaves := h.leaves
  ok hr _ _ hc hrest := h.ok hr hc (hrest.imp_right (hG _ _))
  error := h.error

lemma lookahead_pure (a : α) (F : α → List Token → Prop) : Lookahead (pure a) (pure a) F where
  leaves := leaves_pure a
  ok := by
    intro c rest b h c' rest' hc _
    injection h with hb hrest
    subst hb
    obtain rfl := List.append_left_eq_self.mp hrest
    rw [hc.nil]
    rfl
  error := by
    intro c rest cause _ h
    cases h

lemma lookahead_fail (cause : SyntaxCause) (F : α → List Token → Prop) :
    Lookahead (fail cause) (fail cause) F where
  leaves := leaves_fail cause
  ok := by
    intro c rest b h
    cases h
  error := by
    intro c rest cause' _ h c' rest' hc _
    injection h with hcause hrest
    obtain rfl := List.append_left_eq_self.mp hrest
    rw [hc.nil, ← hcause]
    rfl

/-- Where no depth is left, any rule may take over. -/
lemma lookahead_nested (r : Rule α) (F : α → List Token → Prop) :
    Lookahead (fail .nestingTooDeep) r F where
  leaves := leaves_fail _
  ok := by
    intro c rest b h
    cases h
  error := by
    intro c rest cause hcause h
    injection h with hp
    injection hp with hp
    exact absurd hp.symm hcause

lemma lookahead_bind {r r' : Rule α} {f f' : α → Rule β} {R : α → List Token → Prop}
    {S : α → β → List Token → Prop} {F : β → List Token → Prop} (hr : Lookahead r r' R)
    (hf : ∀ a, Lookahead (f a) (f' a) (S a))
    (hF : ∀ a ts b rest, f a ts = .ok b rest → ∀ U, F b U →
      S a b U ∧ (rest.length < ts.length ∨ R a U)) :
    Lookahead (r >>= f) (r' >>= f') F where
  leaves := leaves_bind hr.leaves fun a => (hf a).leaves
  ok := by
    intro c rest b h c' rest' hc hrest
    obtain ⟨a, middle, ha, hb⟩ := bind_ok.mp h
    obtain ⟨c₁, c₂, rfl, rfl⟩ := split_read (leaves_ok hr.leaves ha) (leaves_ok (hf a).leaves hb)
    obtain ⟨c₁', c₂', rfl, h₁, h₂⟩ := hc.append
    rw [List.append_assoc] at ha ⊢
    -- If the second rule reads nothing, the first one sees what follows them both.
    have hmiddle : Agree 1 (c₂ ++ rest) (c₂' ++ rest') ∨ R a (c₂' ++ rest') := by
      by_cases hne : c₂ = []
      · subst hne
        obtain rfl := h₂.nil
        obtain hagree | hfollow := hrest
        · exact .inl hagree
        · obtain hlt | hR := (hF a _ b rest hb rest' hfollow).2
          · simp at hlt
          · exact .inr hR
      · exact .inl (Agree.of_read h₂ hne rest rest')
    rw [bind_of_ok (hr.ok ha h₁ hmiddle)]
    exact (hf a).ok hb h₂ (hrest.imp_right fun hU => (hF a _ b rest hb rest' hU).1)
  error := by
    intro c rest cause hcause h c' rest' hc hrest
    obtain he | ⟨a, middle, ha, he⟩ := bind_error.mp h
    · rw [bind_apply, hr.error hcause he hc hrest]
    · obtain ⟨c₁, c₂, rfl, rfl⟩ :=
        split_read (leaves_ok hr.leaves ha) (leaves_error (hf a).leaves he)
      obtain ⟨c₁', c₂', rfl, h₁, h₂⟩ := hc.append
      rw [List.append_assoc] at ha ⊢
      rw [bind_of_ok (hr.ok ha h₁ (.inl (Agree.of_alike h₂ hrest.1)))]
      exact (hf a).error hcause he h₂ hrest.of_append

/-- Whatever follows the second rule may follow the first one too. -/
lemma lookahead_bind_follow {r r' : Rule α} {f f' : α → Rule β} {R : α → List Token → Prop}
    {F : β → List Token → Prop} (hr : Lookahead r r' R) (hf : ∀ a, Lookahead (f a) (f' a) F)
    (hF : ∀ a b U, F b U → R a U) : Lookahead (r >>= f) (r' >>= f') F :=
  lookahead_bind hr hf fun a _ b _ _ U hU => ⟨hU, .inr (hF a b U hU)⟩

/-- The second rule reads some token, which follows the first one. -/
lemma lookahead_bind_reads {r r' : Rule α} {f f' : α → Rule β} {R : α → List Token → Prop}
    {F : β → List Token → Prop} (hr : Lookahead r r' R) (hf : ∀ a, Lookahead (f a) (f' a) F)
    (hreads : ∀ a, Reads (f a)) : Lookahead (r >>= f) (r' >>= f') F :=
  lookahead_bind hr hf fun a ts b rest hb _ hU => ⟨hU, .inl (hreads a ts b rest hb)⟩

/-- A value computed from what was read. -/
lemma lookahead_then_pure {r r' : Rule α} {R : α → List Token → Prop} (g : α → β)
    (hr : Lookahead r r' R) {F : β → List Token → Prop} (hF : ∀ a U, F (g a) U → R a U) :
    Lookahead (r >>= fun a => pure (g a)) (r' >>= fun a => pure (g a)) F :=
  lookahead_bind hr (fun a => lookahead_pure (g a) F) fun a ts b rest hb U hU => by
    injection hb with hb
    subst hb
    exact ⟨hU, .inr (hF a U hU)⟩

lemma lookahead_map {r r' : Rule α} {R : α → List Token → Prop} (g : α → β)
    (hr : Lookahead r r' R) {F : β → List Token → Prop} (hF : ∀ a U, F (g a) U → R a U) :
    Lookahead (g <$> r) (g <$> r') F := by
  have hmap := lookahead_then_pure g hr hF
  rwa [bind_pure_comp, bind_pure_comp] at hmap

lemma lookahead_if (b : Bool) {r r' s s' : Rule α} {F : α → List Token → Prop}
    (hr : Lookahead r r' F) (hs : Lookahead s s' F) :
    Lookahead (if b = true then r else s) (if b = true then r' else s') F := by
  cases b with
  | true => exact hr
  | false => exact hs

/-! ### Tests -/

lemma lookahead_accept (p : Pattern) : Lookahead (accept [p]) (accept [p])
    fun b U => b = true ∨ ∀ t ∈ U.head?, p.accepts t = false where
  leaves := leaves_accept _
  ok := by
    intro c rest b h c' rest' hc hrest
    obtain ⟨rfl, t, hts, hp⟩ | ⟨rfl, hts, hno⟩ := accept_ok.mp h
    · have hread : c ++ rest = [t] ++ rest := hts
      obtain rfl := List.append_cancel_right hread
      obtain ⟨t', c', rfl, ht, hc⟩ := hc.cons
      rw [hc.nil]
      exact accept_of (by rw [← p.accepts_congr ht, hp]) rest'
    · obtain rfl := List.append_left_eq_self.mp hts
      rw [hc.nil]
      refine accept_of_not fun u hu => ?_
      obtain hagree | hfalse | hnone := hrest
      · obtain ⟨t, ht, hlook⟩ := hagree.symm.head hu
        rw [p.accepts_congr hlook]
        exact hno t ht
      · cases hfalse
      · exact hnone u hu
  error := by
    intro c rest cause _ h
    unfold accept at h
    split at h <;> cases h

/-- A test that reads nothing and looks at the next token only. -/
structure Tests (test : Rule Bool) (q : List Token → Bool) : Prop where
  value : ∀ ts, test ts = .ok (q ts) ts
  congr : ∀ ts us, Agree 1 ts us → q ts = q us

lemma tests_ahead (p : Pattern) : Tests (ahead [p]) (startsAs [p]) where
  value _ := rfl
  congr ts us h := by
    cases ts with
    | nil =>
      cases us with
      | nil => rfl
      | cons u us => cases h
    | cons t ts =>
      obtain ⟨u, hu, hlook⟩ := h.head (t := t) rfl
      cases us with
      | nil => cases hu
      | cons v us =>
        cases hu
        simp [startsAs, p.accepts_congr hlook]

lemma tests_aheadOneOf (texts : List String) :
    Tests (aheadOneOf texts) fun U => U.head?.any fun t => texts.contains t.text where
  value _ := rfl
  congr ts us h := by
    cases ts with
    | nil =>
      cases us with
      | nil => rfl
      | cons u us => cases h
    | cons t ts =>
      obtain ⟨u, hu, hlook⟩ := h.head (t := t) rfl
      simp only [Token.look, Prod.mk.injEq] at hlook
      rw [Option.mem_def.mp hu]
      simp [hlook.2]

lemma tests_atEnd : Tests atEnd List.isEmpty where
  value _ := rfl
  congr _ _ h := h.isEmpty

lemma lookahead_test {test : Rule Bool} {q : List Token → Bool} (h : Tests test q) :
    Lookahead test test fun b U => q U = b where
  leaves ts := by
    rw [h.value]
    exact List.suffix_refl ts
  ok := by
    intro c rest b hb c' rest' hc hrest
    rw [h.value] at hb
    injection hb with hb hread
    obtain rfl := List.append_left_eq_self.mp hread
    rw [hc.nil, List.nil_append, h.value]
    obtain hagree | hfollow := hrest
    · rw [← hb, List.nil_append, h.congr rest rest' hagree]
    · rw [hfollow]
  error := by
    intro c rest cause _ he
    rw [h.value] at he
    cases he

lemma lookahead_ahead (p : Pattern) : Lookahead (ahead [p]) (ahead [p])
    fun b U => startsAs [p] U = b :=
  lookahead_test (tests_ahead p)

lemma lookahead_aheadOneOf (texts : List String) :
    Lookahead (aheadOneOf texts) (aheadOneOf texts)
      fun b U => (U.head?.any fun t => texts.contains t.text) = b :=
  lookahead_test (tests_aheadOneOf texts)

lemma lookahead_atEnd : Lookahead atEnd atEnd fun b U => U.isEmpty = b :=
  lookahead_test tests_atEnd

/-! ### Single tokens -/

/-- A rule that goes on from its first token, or fails at once where that token is of no use. -/
structure Opens (r : Rule α) (P : Token → Prop) (cause : SyntaxCause) (k : Token → Rule α) :
    Prop where
  begins : ∀ t ts, P t → r (t :: ts) = k t ts
  fails : ∀ ts, (∀ t ∈ ts.head?, ¬P t) → r ts = .error (.syntactic cause) ts

lemma Opens.cases {r : Rule α} {P : Token → Prop} {cause : SyntaxCause} {k : Token → Rule α}
    (h : Opens r P cause k) (ts : List Token) :
    (∃ t us, ts = t :: us ∧ P t ∧ r ts = k t us) ∨
      (∀ t ∈ ts.head?, ¬P t) ∧ r ts = .error (.syntactic cause) ts := by
  cases ts with
  | nil => exact .inr ⟨by simp, h.fails [] (by simp)⟩
  | cons t us =>
    by_cases hp : P t
    · exact .inl ⟨t, us, rfl, hp, h.begins t us hp⟩
    · have hno : ∀ u ∈ (t :: us).head?, ¬P u := by
        intro u hu
        cases hu
        exact hp
      exact .inr ⟨hno, h.fails _ hno⟩

/-- What remains after the first token has been read. -/
lemma first_read {c rest us : List Token} {t : Token} (h : c ++ rest = t :: us)
    (hrest : rest <:+ us) : ∃ c₂, c = t :: c₂ ∧ us = c₂ ++ rest := by
  obtain ⟨c₂, rfl⟩ := hrest
  rw [← List.cons_append] at h
  exact ⟨c₂, List.append_cancel_right h, rfl⟩

/-- How such a rule goes on may depend on the kind and the text of the first token. -/
lemma lookahead_opens {r r' : Rule α} {P : Token → Prop} {cause : SyntaxCause}
    {k k' : Token → Rule α} {F : α → List Token → Prop} (hr : Opens r P cause k)
    (hr' : Opens r' P cause k') (hP : ∀ t t', t.look = t'.look → P t → P t')
    (hk : ∀ t, Lookahead (k t) (k' t) F) (hlook : ∀ t t', t.look = t'.look → k' t = k' t') :
    Lookahead r r' F where
  leaves ts := by
    obtain ⟨t, us, rfl, -, h⟩ | ⟨-, h⟩ := hr.cases ts
    · rw [h]
      exact ((hk t).leaves us).trans (List.suffix_cons t us)
    · rw [h]
      exact List.suffix_refl ts
  ok := by
    intro c rest a ha c' rest' hc hrest
    obtain ⟨t, us, hts, hp, h⟩ | ⟨-, h⟩ := hr.cases (c ++ rest)
    · rw [h] at ha
      obtain ⟨c₂, rfl, rfl⟩ := first_read hts (leaves_ok (hk t).leaves ha)
      obtain ⟨t', c₂', rfl, htt, hc₂⟩ := hc.cons
      rw [List.cons_append, hr'.begins t' _ (hP t t' htt hp), ← hlook t t' htt]
      exact (hk t).ok ha hc₂ hrest
    · rw [h] at ha
      cases ha
  error := by
    intro c rest cause' hcause he c' rest' hc hrest
    obtain ⟨t, us, hts, hp, h⟩ | ⟨hno, h⟩ := hr.cases (c ++ rest)
    · rw [h] at he
      obtain ⟨c₂, rfl, rfl⟩ := first_read hts (leaves_error (hk t).leaves he)
      obtain ⟨t', c₂', rfl, htt, hc₂⟩ := hc.cons
      rw [List.cons_append, hr'.begins t' _ (hP t t' htt hp), ← hlook t t' htt]
      have hforced : Forced cause' ([t] ++ c₂) rest rest' := hrest
      exact (hk t).error hcause he hc₂ hforced.of_append
    · rw [h] at he
      injection he with hproblem hread
      injection hproblem with hproblem
      obtain rfl := List.append_left_eq_self.mp hread
      rw [hc.nil, ← hproblem]
      refine hr'.fails rest' fun u hu hp => ?_
      obtain ⟨t, ht, htu⟩ := hrest.1.symm.head hu
      exact hno t ht (hP u t htu hp)

lemma expect_error_congr {p : Pattern} {cause : SyntaxCause} {problem : Problem}
    {c rest c' rest' : List Token} (h : expect p cause (c ++ rest) = .error problem rest)
    (hc : Alike c c') (hrest : Agree 1 rest rest') :
    expect p cause (c' ++ rest') = .error problem rest' := by
  obtain ⟨hproblem, hread, hno⟩ := expect_error.mp h
  obtain rfl := List.append_left_eq_self.mp hread
  rw [hc.nil]
  refine expect_error.mpr ⟨hproblem, rfl, fun u hu => ?_⟩
  obtain ⟨t, ht, htu⟩ := hrest.symm.head hu
  rw [p.accepts_congr htu]
  exact hno t ht

lemma opens_expect (p : Pattern) (cause : SyntaxCause) (k : Token → Rule α) :
    Opens (expect p cause >>= k) (fun t => p.accepts t = true) cause k where
  begins t ts h := bind_of_ok (expect_of h cause ts) k
  fails ts h := by
    have hno : ∀ t ∈ ts.head?, p.accepts t = false := fun t ht => by simpa using h t ht
    rw [bind_apply, expect_error.mpr ⟨rfl, rfl, hno⟩]

/-- What comes after an expected token may depend on its kind and text. -/
lemma lookahead_expect_bind (p : Pattern) (cause : SyntaxCause) {k k' : Token → Rule α}
    {F : α → List Token → Prop} (hk : ∀ t, Lookahead (k t) (k' t) F)
    (hlook : ∀ t t', t.look = t'.look → k' t = k' t') :
    Lookahead (expect p cause >>= k) (expect p cause >>= k') F :=
  lookahead_opens (opens_expect p cause k) (opens_expect p cause k')
    (fun _ _ h hp => by rwa [← p.accepts_congr h]) hk hlook

lemma lookahead_expect_then (p : Pattern) (cause : SyntaxCause) {k k' : Rule α}
    {F : α → List Token → Prop} (hk : Lookahead k k' F) :
    Lookahead (expect p cause >>= fun _ => k) (expect p cause >>= fun _ => k') F :=
  lookahead_expect_bind p cause (fun _ => hk) fun _ _ _ => rfl

lemma lookahead_expect_pure (p : Pattern) (cause : SyntaxCause) (a : α)
    (F : α → List Token → Prop) :
    Lookahead (expect p cause >>= fun _ => pure a) (expect p cause >>= fun _ => pure a) F :=
  lookahead_expect_then p cause (lookahead_pure a F)

lemma reads_expect_pure (p : Pattern) (cause : SyntaxCause) (a : α) :
    Reads (expect p cause >>= fun _ => pure a) :=
  reads_bind_left (reads_expect p cause) fun _ => leaves_pure a

lemma lookahead_name (cause : SyntaxCause) (F : String → List Token → Prop) :
    Lookahead (name cause) (name cause) F := by
  refine lookahead_expect_bind _ cause (fun t => lookahead_pure t.text F) fun t t' h => ?_
  have htext : t.text = t'.text := congrArg Prod.snd h
  rw [htext]

/-! ### Options and repetitions -/

lemma lookahead_behind (p : Pattern) {r r' : Rule α} {R : α → List Token → Prop}
    (hr : Lookahead r r' R) : Lookahead (behind p r) (behind p r') fun o U =>
      match o with
      | none => ∀ t ∈ U.head?, p.accepts t = false
      | some a => R a U := by
  refine lookahead_bind (lookahead_accept p) (S := fun b o U =>
    match o with
    | none => True
    | some a => R a U) (fun b => ?_) ?_
  · cases b with
    | true => exact lookahead_then_pure some hr fun a U h => h
    | false => exact lookahead_pure none _
  · intro b _ o rest h U hU
    cases b with
    | true =>
      obtain ⟨a, middle, -, h⟩ := bind_ok.mp h
      injection h with ho _
      subst ho
      exact ⟨hU, .inr (.inl rfl)⟩
    | false =>
      injection h with ho _
      subst ho
      exact ⟨trivial, .inr (.inr hU)⟩

lemma lookahead_repeatedly {step step' : α → Rule (Option α)} {R : Option α → List Token → Prop}
    (hfinds : ∀ a, Finds (step a)) (hfinds' : ∀ a, Finds (step' a))
    (h : ∀ a, Lookahead (step a) (step' a) R) (hR : ∀ b U, R none U → R (some b) U) (a : α) :
    Lookahead (repeatedly step a) (repeatedly step' a) fun _ U => R none U where
  leaves := leaves_repeatedly (fun a => (h a).leaves) a
  ok := by
    intro c rest b
    -- Each round that adds something reads a token, so the induction is on what is read in all.
    induction hn : c.length using Nat.strong_induction_on generalizing c a with
    | _ n ih =>
      intro hb c' rest' hc hrest
      rw [repeatedly_apply hfinds] at hb
      split at hb
      · next middle hs =>
        injection hb with hb hmiddle
        subst hb hmiddle
        rw [repeatedly_of_none hfinds' ((h a).ok hs hc hrest)]
      · next b' middle hs =>
        have hlt := hfinds a _ b' middle hs
        obtain ⟨c₁, c₂, rfl, rfl⟩ := split_read (leaves_ok (h a).leaves hs)
          (leaves_ok (leaves_repeatedly (fun a => (h a).leaves) b') hb)
        obtain ⟨c₁', c₂', rfl, h₁, h₂⟩ := hc.append
        simp only [List.length_append] at hlt hn
        rw [List.append_assoc] at hs ⊢
        have hmiddle : Agree 1 (c₂ ++ rest) (c₂' ++ rest') ∨ R (some b') (c₂' ++ rest') := by
          obtain hagree | hfollow := hrest
          · exact .inl (Agree.of_alike h₂ hagree)
          · by_cases hne : c₂ = []
            · subst hne
              obtain rfl := h₂.nil
              exact .inr (hR b' rest' hfollow)
            · exact .inl (Agree.of_read h₂ hne rest rest')
        rw [repeatedly_of_some hfinds' ((h a).ok hs h₁ hmiddle)]
        exact ih c₂.length (by omega) b' rfl hb h₂ hrest
      · cases hb
  error := by
    intro c rest cause hcause
    induction hn : c.length using Nat.strong_induction_on generalizing c a with
    | _ n ih =>
      intro hb c' rest' hc hrest
      rw [repeatedly_apply hfinds] at hb
      split at hb
      · cases hb
      · next b' middle hs =>
        have hlt := hfinds a _ b' middle hs
        obtain ⟨c₁, c₂, rfl, rfl⟩ := split_read (leaves_ok (h a).leaves hs)
          (leaves_error (leaves_repeatedly (fun a => (h a).leaves) b') hb)
        obtain ⟨c₁', c₂', rfl, h₁, h₂⟩ := hc.append
        simp only [List.length_append] at hlt hn
        rw [List.append_assoc] at hs ⊢
        rw [repeatedly_of_some hfinds' ((h a).ok hs h₁ (.inl (Agree.of_alike h₂ hrest.1)))]
        exact ih c₂.length (by omega) b' rfl hb h₂ hrest.of_append
      · next problem middle hs =>
        injection hb with hp hmiddle
        subst hp hmiddle
        rw [repeatedly_apply hfinds', (h a).error hcause hs hc hrest]

lemma lookahead_collect {item item' : Rule (Option α)} {R : Option α → List Token → Prop}
    (h : Lookahead item item' R) (read : List α) :
    Lookahead (collect item read) (collect item' read) fun o U =>
      match o with
      | none => R none U
      | some as => ∀ a ∈ as.head?, R (some a) U := by
  refine lookahead_bind h (S := fun _ _ _ => True) (fun o => ?_) ?_
  · cases o with
    | none => exact lookahead_pure none _
    | some a => exact lookahead_pure (some (a :: read)) _
  · intro o ts as rest has U hU
    cases o with
    | none =>
      injection has with has _
      subst has
      exact ⟨trivial, .inr hU⟩
    | some a =>
      injection has with has _
      subst has
      exact ⟨trivial, .inr (hU a rfl)⟩

lemma lookahead_many {item item' : Rule (Option α)} {R : Option α → List Token → Prop}
    (hfinds : Finds item) (hfinds' : Finds item') (h : Lookahead item item' R)
    (hR : ∀ a U, R none U → R (some a) U) :
    Lookahead (many item) (many item') fun _ U => R none U := by
  rw [many_eq, many_eq]
  refine lookahead_then_pure List.reverse (lookahead_repeatedly (finds_collect hfinds)
    (finds_collect hfinds') (lookahead_collect h) ?_ []) fun _ _ hU => hU
  intro as U hU a _
  exact hR a U hU

end Rule

end FrontEnd
