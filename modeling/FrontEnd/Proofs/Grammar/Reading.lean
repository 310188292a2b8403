import FrontEnd.Grammar.Progress
import FrontEnd.Proofs.Lexical.Constant

/-!
# What rules read

Success of a composed rule taken apart, and a judgment on rules that is closed under the ways of
composing them: what a rule has read, whenever it succeeds, stands in some relation to its value,
and no integer in it is too long.
-/

namespace FrontEnd

/-- A pattern for a text of few characters, or for a kind other than that of integers. -/
def Pattern.isShort : Pattern → Bool
  | text s => s.length ≤ maxIntegerDigits
  | kind k => k ≠ .integer

lemma Token.readable_of_length {t : Token} (h : t.text.length ≤ maxIntegerDigits) :
    t.Readable := fun _ => List.countP_le_length.trans (String.length_toList ▸ h)

lemma Token.readable_of_kind {t : Token} (h : t.kind ≠ .integer) : t.Readable :=
  fun hk => absurd hk h

lemma Pattern.readable {p : Pattern} {t : Token} (hp : p.isShort = true)
    (h : p.accepts t = true) : t.Readable := by
  cases p with
  | text s =>
    obtain rfl : t.text = s := by simpa [accepts] using h
    exact Token.readable_of_length (of_decide_eq_true hp)
  | kind k =>
    obtain rfl : t.kind = k := by simpa [accepts] using h
    exact Token.readable_of_kind (of_decide_eq_true hp)

namespace Rule

variable {α β : Type}

lemma bind_ok {r : Rule α} {f : α → Rule β} {ts rest : List Token} {b : β} :
    (r >>= f) ts = .ok b rest ↔ ∃ a middle, r ts = .ok a middle ∧ f a middle = .ok b rest := by
  rw [bind_apply]
  cases r ts with
  | ok a middle => simp
  | error problem middle => simp

lemma bind_error {r : Rule α} {f : α → Rule β} {ts rest : List Token} {problem : Problem} :
    (r >>= f) ts = .error problem rest ↔ r ts = .error problem rest ∨
      ∃ a middle, r ts = .ok a middle ∧ f a middle = .error problem rest := by
  rw [bind_apply]
  cases r ts with
  | ok a middle => simp
  | error problem middle => simp

lemma accept_cons (p : Pattern) (t : Token) (ts : List Token) :
    accept [p] (t :: ts) = if p.accepts t then .ok true ts else .ok false (t :: ts) := by
  simp [accept, startsAs]

lemma accept_nil (p : Pattern) : accept [p] [] = .ok false [] := rfl

lemma expect_cons (p : Pattern) (cause : SyntaxCause) (t : Token) (ts : List Token) :
    expect p cause (t :: ts) =
      if p.accepts t then .ok t ts else .error (.syntactic cause) (t :: ts) := rfl

lemma expect_ok {p : Pattern} {cause : SyntaxCause} {ts rest : List Token} {t : Token} :
    expect p cause ts = .ok t rest ↔ ts = t :: rest ∧ p.accepts t = true := by
  cases ts with
  | nil => simp [expect]
  | cons u us =>
    rw [expect_cons]
    by_cases hp : p.accepts u = true
    · rw [if_pos hp]
      constructor
      · intro h
        cases h
        exact ⟨rfl, hp⟩
      · rintro ⟨h, -⟩
        cases h
        rfl
    · rw [if_neg hp]
      constructor
      · intro h
        cases h
      · rintro ⟨h, ht⟩
        cases h
        exact absurd ht hp

lemma expect_error {p : Pattern} {cause : SyntaxCause} {ts rest : List Token} {problem : Problem} :
    expect p cause ts = .error problem rest ↔
      .syntactic cause = problem ∧ ts = rest ∧ ∀ t ∈ ts.head?, p.accepts t = false := by
  cases ts with
  | nil => simp [expect]
  | cons u us =>
    rw [expect_cons]
    by_cases hp : p.accepts u = true
    · rw [if_pos hp]
      simp [hp]
    · rw [if_neg hp]
      simp [hp]

lemma accept_ok {p : Pattern} {ts rest : List Token} {b : Bool} :
    accept [p] ts = .ok b rest ↔ (b = true ∧ ∃ t, ts = t :: rest ∧ p.accepts t = true) ∨
      (b = false ∧ ts = rest ∧ ∀ t ∈ ts.head?, p.accepts t = false) := by
  cases ts with
  | nil => cases b <;> simp [accept_nil]
  | cons u us =>
    rw [accept_cons]
    by_cases hp : p.accepts u = true
    · rw [if_pos hp]
      cases b <;> simp [hp]
    · rw [if_neg hp]
      cases b <;> simp [hp]

@[simp] lemma accepts_text (s : String) (t : Token) :
    (Pattern.text s).accepts t = true ↔ t.text = s := by
  simp [Pattern.accepts]

@[simp] lemma accepts_kind (k : TokenKind) (t : Token) :
    (Pattern.kind k).accepts t = true ↔ t.kind = k := by
  simp [Pattern.accepts]

lemma bind_of_ok {r : Rule α} {ts middle : List Token} {a : α} (h : r ts = .ok a middle)
    (f : α → Rule β) : (r >>= f) ts = f a middle := by
  rw [bind_apply, h]

lemma accept_of {p : Pattern} {t : Token} (h : p.accepts t = true) (ts : List Token) :
    accept [p] (t :: ts) = .ok true ts := by
  rw [accept_cons, if_pos h]

lemma accept_of_not {p : Pattern} {ts : List Token} (h : ∀ t ∈ ts.head?, p.accepts t = false) :
    accept [p] ts = .ok false ts := by
  cases ts with
  | nil => rfl
  | cons t ts => rw [accept_cons, h t rfl, if_neg Bool.false_ne_true]

lemma expect_of {p : Pattern} {t : Token} (h : p.accepts t = true) (cause : SyntaxCause)
    (ts : List Token) : expect p cause (t :: ts) = .ok t ts := by
  rw [expect_cons, if_pos h]

lemma name_of {t : Token} (h : t.kind = .identifier) (cause : SyntaxCause) (ts : List Token) :
    name cause (t :: ts) = .ok t.text ts := by
  have ht : (Pattern.kind .identifier).accepts t = true := by simpa using h
  exact bind_of_ok (expect_of ht cause ts) _

lemma name_ok {cause : SyntaxCause} {ts rest : List Token} {s : String} :
    name cause ts = .ok s rest ↔ ∃ n, ts = n :: rest ∧ n.kind = .identifier ∧ n.text = s := by
  constructor
  · intro h
    obtain ⟨n, middle, hn, hs⟩ := bind_ok.mp h
    obtain ⟨rfl, hk⟩ := expect_ok.mp hn
    cases hs
    exact ⟨n, rfl, by simpa using hk, rfl⟩
  · rintro ⟨n, rfl, hk, rfl⟩
    exact name_of hk cause rest

lemma behind_of {p : Pattern} {r : Rule α} {t : Token} {ts rest : List Token} {a : α}
    (ht : p.accepts t = true) (h : r ts = .ok a rest) :
    behind p r (t :: ts) = .ok (some a) rest := by
  unfold behind
  rw [bind_of_ok (accept_of ht ts)]
  exact bind_of_ok h _

lemma behind_of_not {p : Pattern} (r : Rule α) {ts : List Token}
    (h : ∀ t ∈ ts.head?, p.accepts t = false) : behind p r ts = .ok none ts :=
  bind_of_ok (accept_of_not h) _

lemma repeatedly_of_none {step : α → Rule (Option α)} (hfinds : ∀ a, Finds (step a)) {a : α}
    {ts rest : List Token} (h : step a ts = .ok none rest) : repeatedly step a ts = .ok a rest := by
  rw [repeatedly_apply hfinds, h]

lemma repeatedly_of_some {step : α → Rule (Option α)} (hfinds : ∀ a, Finds (step a)) {a b : α}
    {ts rest : List Token} (h : step a ts = .ok (some b) rest) :
    repeatedly step a ts = repeatedly step b rest := by
  rw [repeatedly_apply hfinds, h]

/-- A repetition that comes to an end has nothing to add there. -/
lemma repeatedly_ends {step : α → Rule (Option α)} (hfinds : ∀ a, Finds (step a)) {a b : α}
    {ts rest : List Token} (h : repeatedly step a ts = .ok b rest) :
    ∃ before, step b before = .ok none rest := by
  induction hn : ts.length using Nat.strong_induction_on generalizing ts a with
  | _ n ih =>
    rw [repeatedly_apply hfinds] at h
    split at h
    · next hs =>
      cases h
      exact ⟨ts, hs⟩
    · next c middle hs =>
      have := hfinds a ts c middle hs
      exact ih middle.length (by omega) h rfl
    · cases h

/-- What every step keeps holds of the value of a repetition. -/
lemma repeatedly_keeps {step : α → Rule (Option α)} (hfinds : ∀ a, Finds (step a)) {P : α → Prop}
    (hstep : ∀ a ts b rest, P a → step a ts = .ok (some b) rest → P b) {a b : α}
    {ts rest : List Token} (ha : P a) (h : repeatedly step a ts = .ok b rest) : P b := by
  induction hn : ts.length using Nat.strong_induction_on generalizing ts a with
  | _ n ih =>
    rw [repeatedly_apply hfinds] at h
    split at h
    · cases h
      exact ha
    · next c middle hs =>
      have hlt := hfinds a ts c middle hs
      exact ih middle.length (by omega) (hstep a ts c middle ha hs) h rfl
    · cases h

/-- One more item in front of those already read. -/
def collect (item : Rule (Option α)) (read : List α) : Rule (Option (List α)) := do
  match ← item with
  | none => return none
  | some a => return some (a :: read)

lemma many_eq (item : Rule (Option α)) :
    many item = repeatedly (collect item) [] >>= fun reversed => pure reversed.reverse := rfl

lemma collect_apply (item : Rule (Option α)) (read : List α) (ts : List Token) :
    collect item read ts =
      match item ts with
      | .ok none rest => .ok none rest
      | .ok (some a) rest => .ok (some (a :: read)) rest
      | .error problem rest => .error problem rest := by
  unfold collect
  rw [bind_apply]
  cases item ts with
  | error problem rest => rfl
  | ok o rest =>
    cases o with
    | none => rfl
    | some a => rfl

lemma finds_collect {item : Rule (Option α)} (h : Finds item) (read : List α) :
    Finds (collect item read) := by
  intro ts as rest ha
  rw [collect_apply] at ha
  split at ha
  · cases ha
  · next a middle hi =>
    cases ha
    exact h ts a _ hi
  · cases ha

lemma repeatedly_collect {item : Rule (Option α)} (h : Finds item) (read : List α)
    (ts : List Token) :
    repeatedly (collect item) read ts =
      (repeatedly (collect item) [] >>= fun more => pure (more ++ read)) ts := by
  induction hn : ts.length using Nat.strong_induction_on generalizing ts read with
  | _ n ih =>
    rw [bind_apply, repeatedly_apply (finds_collect h), repeatedly_apply (finds_collect h),
      collect_apply, collect_apply]
    cases hi : item ts with
    | error problem rest => rfl
    | ok o rest =>
      cases o with
      | none => rfl
      | some a =>
        have hlt := h ts a rest hi
        have h1 := ih rest.length (by omega) (a :: read) rest rfl
        have h2 := ih rest.length (by omega) [a] rest rfl
        dsimp only
        rw [h1, h2, bind_apply, bind_apply]
        cases repeatedly (collect item) [] rest with
        | ok more rest => simp
        | error problem rest => rfl

theorem many_apply {item : Rule (Option α)} (h : Finds item) (ts : List Token) :
    many item ts =
      match item ts with
      | .ok none rest => .ok [] rest
      | .ok (some a) rest => (many item >>= fun as => pure (a :: as)) rest
      | .error problem rest => .error problem rest := by
  rw [many_eq, bind_apply, repeatedly_apply (finds_collect h), collect_apply]
  cases item ts with
  | error problem rest => rfl
  | ok o rest =>
    cases o with
    | none => rfl
    | some a =>
      dsimp only
      rw [repeatedly_collect h, bind_apply, bind_apply, bind_apply]
      cases repeatedly (collect item) [] rest with
      | ok more rest => simp
      | error problem rest => rfl

lemma many_of_none {item : Rule (Option α)} (h : Finds item) {ts rest : List Token}
    (hi : item ts = .ok none rest) : many item ts = .ok [] rest := by
  rw [many_apply h, hi]

lemma many_of_some {item : Rule (Option α)} (h : Finds item) {ts middle rest : List Token} {a : α}
    {as : List α} (hi : item ts = .ok (some a) middle) (hm : many item middle = .ok as rest) :
    many item ts = .ok (a :: as) rest := by
  rw [many_apply h, hi]
  exact bind_of_ok hm _

/-- Items are read until there is none. -/
lemma many_ends {item : Rule (Option α)} (h : Finds item) {ts rest : List Token} {as : List α}
    (hm : many item ts = .ok as rest) : ∃ before, item before = .ok none rest := by
  rw [many_eq] at hm
  obtain ⟨read, middle, hr, hm⟩ := bind_ok.mp hm
  cases hm
  obtain ⟨before, hb⟩ := repeatedly_ends (finds_collect h) hr
  refine ⟨before, ?_⟩
  rw [collect_apply] at hb
  split at hb
  · next hi =>
    cases hb
    exact hi
  · cases hb
  · cases hb

/-- Whatever the rule reads from tokens of the lexer can be read, and stands in a relation to what
the rule gives. -/
def Gives (r : Rule α) (Q : List Token → α → Prop) : Prop :=
  ∀ ts a rest, (∀ t ∈ ts, t.Genuine) → r ts = .ok a rest →
    ∃ xs, ts = xs ++ rest ∧ (∀ x ∈ xs, x.Readable) ∧ Q xs a

lemma Gives.mono {r : Rule α} {P Q : List Token → α → Prop} (h : r.Gives P)
    (hpq : ∀ xs a, P xs a → Q xs a) : r.Gives Q := by
  intro ts a rest hg ha
  obtain ⟨xs, hx, hread, hp⟩ := h ts a rest hg ha
  exact ⟨xs, hx, hread, hpq xs a hp⟩

lemma gives_pure (a : α) : (pure a : Rule α).Gives fun xs b => xs = [] ∧ b = a := by
  intro ts b rest _ h
  cases h
  exact ⟨[], rfl, nofun, rfl, rfl⟩

lemma gives_fail (cause : SyntaxCause) (Q : List Token → α → Prop) :
    (fail cause : Rule α).Gives Q := by
  intro ts a rest _ h
  cases h

lemma gives_bind {r : Rule α} {f : α → Rule β} {P : List Token → α → Prop}
    {Q : α → List Token → β → Prop} (hr : r.Gives P) (hf : ∀ a, (f a).Gives (Q a)) :
    (r >>= f).Gives fun zs b => ∃ xs a ys, zs = xs ++ ys ∧ P xs a ∧ Q a ys b := by
  intro ts b rest hg h
  obtain ⟨a, middle, ha, hb⟩ := bind_ok.mp h
  obtain ⟨xs, rfl, hxs, hp⟩ := hr ts a middle hg ha
  obtain ⟨ys, rfl, hys, hq⟩ :=
    hf a middle b rest (fun t ht => hg t (List.mem_append_right xs ht)) hb
  exact ⟨xs ++ ys, (List.append_assoc ..).symm, List.forall_mem_append.mpr ⟨hxs, hys⟩,
    xs, a, ys, rfl, hp, hq⟩

lemma gives_expect {p : Pattern} {cause : SyntaxCause} (h : p.isShort = true) :
    (expect p cause).Gives fun xs t => xs = [t] ∧ p.accepts t = true := by
  intro ts t rest _ ht
  obtain ⟨rfl, hp⟩ := expect_ok.mp ht
  exact ⟨[t], rfl, List.forall_mem_singleton.mpr (Pattern.readable h hp), rfl, hp⟩

lemma gives_name (cause : SyntaxCause) :
    (name cause).Gives fun xs s => ∃ n, xs = [n] ∧ n.kind = .identifier ∧ s = n.text := by
  refine (gives_bind (gives_expect (by decide)) fun t => gives_pure t.text).mono ?_
  rintro _ _ ⟨xs, t, ys, rfl, ⟨rfl, ht⟩, rfl, rfl⟩
  exact ⟨t, rfl, by simpa using ht, rfl⟩

lemma gives_accept {p : Pattern} (h : p.isShort = true) :
    (accept [p]).Gives fun xs b =>
      (b = true ∧ ∃ t, xs = [t] ∧ p.accepts t = true) ∨ (b = false ∧ xs = []) := by
  intro ts b rest _ hr
  obtain ⟨hb, t, rfl, hp⟩ | ⟨hb, rfl, -⟩ := accept_ok.mp hr
  · exact ⟨[t], rfl, List.forall_mem_singleton.mpr (Pattern.readable h hp),
      .inl ⟨hb, t, rfl, hp⟩⟩
  · exact ⟨[], rfl, nofun, .inr ⟨hb, rfl⟩⟩

lemma gives_if (b : Bool) {r s : Rule α} {P Q : List Token → α → Prop} (hr : r.Gives P)
    (hs : s.Gives Q) : (if b = true then r else s).Gives fun xs a =>
      (b = true ∧ P xs a) ∨ (b = false ∧ Q xs a) := by
  cases b with
  | true => exact hr.mono fun xs a h => .inl ⟨rfl, h⟩
  | false => exact hs.mono fun xs a h => .inr ⟨rfl, h⟩

lemma gives_ahead (ps : List Pattern) : (ahead ps).Gives fun xs _ => xs = [] := by
  intro ts b rest _ h
  cases h
  exact ⟨[], rfl, nofun, rfl⟩

lemma gives_aheadOneOf (texts : List String) : (aheadOneOf texts).Gives fun xs _ => xs = [] := by
  intro ts b rest _ h
  cases h
  exact ⟨[], rfl, nofun, rfl⟩

lemma gives_atEnd : atEnd.Gives fun xs _ => xs = [] := by
  intro ts b rest _ h
  cases h
  exact ⟨[], rfl, nofun, rfl⟩

/-- One of two rules after a test that reads nothing. -/
lemma gives_test_else {test : Rule Bool} (ht : test.Gives fun xs _ => xs = []) {r s : Rule α}
    {P Q : List Token → α → Prop} (hr : r.Gives P) (hs : s.Gives Q) :
    (test >>= fun b => if b = true then r else s).Gives fun xs a => P xs a ∨ Q xs a := by
  refine (gives_bind ht fun b => gives_if b hr hs).mono ?_
  rintro _ a ⟨_, b, xs, rfl, rfl, ⟨-, h⟩ | ⟨-, h⟩⟩
  · exact .inl h
  · exact .inr h

/-- A rule behind its announcing token, or another one where that token is not next. -/
lemma gives_accept_else {p : Pattern} {r s : Rule α} {P Q : List Token → α → Prop}
    (h : p.isShort = true) (hr : r.Gives P) (hs : s.Gives Q) :
    (accept [p] >>= fun b => if b = true then r else s).Gives fun xs a =>
      (∃ t ys, xs = t :: ys ∧ p.accepts t = true ∧ P ys a) ∨ Q xs a := by
  refine (gives_bind (gives_accept h) fun b => gives_if b hr hs).mono ?_
  rintro _ a ⟨_, b, ys, rfl, ⟨rfl, t, rfl, ht⟩ | ⟨rfl, rfl⟩, ⟨hb, h⟩ | ⟨hb, h⟩⟩
  · exact .inl ⟨t, ys, rfl, ht, h⟩
  · cases hb
  · cases hb
  · exact .inr h

lemma gives_behind {p : Pattern} {r : Rule α} {P : List Token → α → Prop}
    (h : p.isShort = true) (hr : r.Gives P) : (behind p r).Gives fun xs o => (xs = [] ∧ o = none) ∨
      ∃ t ys a, xs = t :: ys ∧ p.accepts t = true ∧ P ys a ∧ o = some a := by
  refine (gives_accept_else h (gives_bind hr fun a => gives_pure (some a))
    (gives_pure none)).mono ?_
  rintro _ o (⟨t, _, rfl, ht, xs, a, ys, rfl, hp, rfl, rfl⟩ | h)
  · exact .inr ⟨t, xs, a, by simp, ht, hp, rfl⟩
  · exact .inl h

/-- A relation that every step extends is extended by the whole repetition. -/
lemma gives_repeatedly {step : α → Rule (Option α)} (hfinds : ∀ a, Finds (step a))
    {S : α → List Token → α → Prop}
    (hstep : ∀ a, (step a).Gives fun xs o => (xs = [] ∧ o = none) ∨ ∃ b, o = some b ∧ S a xs b)
    {I : List Token → α → Prop} (hI : ∀ xs a ys b, I xs a → S a ys b → I (xs ++ ys) b) (a : α) :
    (repeatedly step a).Gives fun ys b => ∀ xs, I xs a → I (xs ++ ys) b := by
  intro ts
  induction hn : ts.length using Nat.strong_induction_on generalizing ts a with
  | _ n ih =>
    intro b rest hg h
    rw [repeatedly_apply hfinds] at h
    split at h
    · next middle hm =>
      cases h
      obtain ⟨xs, rfl, -, ⟨rfl, -⟩ | ⟨c, hc, -⟩⟩ := hstep a ts none _ hg hm
      · exact ⟨[], rfl, nofun, fun xs hx => by rwa [List.append_nil]⟩
      · cases hc
    · next c middle hm =>
      have hlt := hfinds a ts c middle hm
      obtain ⟨xs, rfl, hxs, ⟨-, hc⟩ | ⟨c', hc, hS⟩⟩ := hstep a ts (some c) middle hg hm
      · cases hc
      · cases hc
        obtain ⟨ys, rfl, hys, hy⟩ := ih middle.length (by omega) c middle rfl b rest
          (fun t ht => hg t (List.mem_append_right xs ht)) h
        refine ⟨xs ++ ys, (List.append_assoc ..).symm, List.forall_mem_append.mpr ⟨hxs, hys⟩,
          fun zs hz => ?_⟩
        rw [← List.append_assoc]
        exact hy _ (hI zs a xs c hz hS)
    · cases h

/-- What every item stands in, the list of all items stands in. -/
lemma gives_many {item : Rule (Option α)} (hfinds : Finds item) {Q : List Token → α → Prop}
    (hitem : item.Gives fun xs o => (xs = [] ∧ o = none) ∨ ∃ a, o = some a ∧ Q xs a)
    {R : List Token → List α → Prop} (hnil : R [] [])
    (hcons : ∀ xs a ys as, Q xs a → R ys as → R (xs ++ ys) (a :: as)) : (many item).Gives R := by
  have hstep : ∀ read : List α, (collect item read).Gives fun xs o =>
      (xs = [] ∧ o = none) ∨ ∃ b, o = some b ∧ ∃ a, b = a :: read ∧ Q xs a := by
    intro read ts o rest hg h
    obtain ⟨oa, middle, ho, h⟩ := bind_ok.mp h
    obtain ⟨xs, hx, hread, ⟨rfl, rfl⟩ | ⟨a, rfl, hq⟩⟩ := hitem ts oa middle hg ho
    · cases h
      exact ⟨[], hx, hread, .inl ⟨rfl, rfl⟩⟩
    · cases h
      exact ⟨xs, hx, hread, .inr ⟨_, rfl, a, rfl, hq⟩⟩
  have hI : ∀ (xs : List Token) (read : List α) (ys : List Token) (read' : List α),
      (∀ zs as, R zs as → R (xs ++ zs) (read.reverse ++ as)) →
      (∃ a, read' = a :: read ∧ Q ys a) →
      ∀ zs as, R zs as → R (xs ++ ys ++ zs) (read'.reverse ++ as) := by
    rintro xs read ys _ h ⟨a, rfl, hq⟩ zs as hr
    have := h _ _ (hcons ys a zs as hq hr)
    simpa using this
  refine (gives_bind (gives_repeatedly (finds_collect hfinds) hstep hI []) fun reversed =>
    gives_pure reversed.reverse).mono ?_
  rintro _ _ ⟨xs, reversed, ys, rfl, hx, rfl, rfl⟩
  have := hx [] (fun zs as hr => by simpa using hr) [] [] hnil
  simpa using this

end Rule

end FrontEnd
