import FrontEnd.Proofs.Nesting.Script

/-!
# Rules with scripts

A rule with a script for it, as one object: the script is right at every depth, and it comes with
what it weighs, with the order of what it reads and with its blindness to the places of tokens. The
ways of composing rules compose these objects.
-/

namespace FrontEnd

/-- A script for a rule at every number of levels left for the constructs inside, with the weight
that it starts from and the weights of its values. -/
structure Scripted {α : Type} (r : Nat → Rule α) (start : Nat) (weight : α → Nat) where
  script : List Token → Script α
  plays (depth : Nat) (ts : List Token) : (script ts).play depth = r depth ts
  weighs (ts : List Token) : (script ts).Weighs weight start
  within (ts : List Token) : (script ts).Within ts
  alike {ts us : List Token} (h : Alike ts us) : (script ts).AlikeScript (script us)

/-- The deepest weight of some values. -/
def deepest {α : Type} (weight : α → Nat) (as : List α) : Nat := (as.map weight).foldr max 0

section Deepest

variable {α : Type} (w : α → Nat)

@[simp] lemma deepest_nil : deepest w [] = 0 := rfl

@[simp] lemma deepest_cons (a : α) (as : List α) :
    deepest w (a :: as) = max (w a) (deepest w as) := rfl

lemma deepest_append (as bs : List α) :
    deepest w (as ++ bs) = max (deepest w as) (deepest w bs) := by
  induction as with
  | nil => simp
  | cons a as ih => rw [List.cons_append, deepest_cons, ih, deepest_cons, Nat.max_assoc]

lemma deepest_reverse (as : List α) : deepest w as.reverse = deepest w as := by
  induction as with
  | nil => rfl
  | cons a as ih =>
    rw [List.reverse_cons, deepest_append, ih, deepest_cons, deepest_cons, deepest_nil,
      Nat.max_zero, Nat.max_comm]

end Deepest

namespace Scripted

open Script Rule

variable {α β : Type} {start : Nat} {v : α → Nat} {w : β → Nat}

/-- A rule that reads neither a construct inside nor a constant. -/
def plain {r : Rule α} (hl : Leaves r) (hb : r.Blind)
    (hw : ∀ {ts rest a}, r ts = .ok a rest → v a = start)
    (hf : ∀ {ts rest problem}, r ts = .error problem rest → ∃ cause, problem = .syntactic cause) :
    Scripted (fun _ => r) start v where
  script ts := ended (r ts)
  plays depth ts := play_ended depth (r ts)
  weighs ts := by
    cases h : r ts with
    | ok a rest => exact hw h
    | error problem rest => trivial
  within ts := by
    have h := hl ts
    cases hr : r ts with
    | ok a rest => rwa [hr] at h
    | error problem rest =>
      obtain ⟨cause, rfl⟩ := hf hr
      rwa [hr] at h
  alike h := .ended (hb h)

/-- The construct inside. -/
def call (n : Nest) (start : Nat) :
    Scripted (fun depth => n.rule depth) start fun a => max start (n.nesting a) where
  script ts := .call n ts .ok
  plays depth ts := by
    simp only [play]
    cases n.rule depth ts with
    | ok a rest => rfl
    | error problem rest => rfl
  weighs ts _ _ := rfl
  within ts := ⟨List.suffix_refl ts, fun _ rest => List.suffix_refl rest⟩
  alike h := .call n h fun b _ _ h => .ok b h

def bind {r : Nat → Rule α} {f : α → Nat → Rule β} (s : Scripted r start v)
    (t : ∀ a, Scripted (f a) (v a) w) :
    Scripted (fun depth => r depth >>= fun a => f a depth) start w where
  script ts := (s.script ts).bind fun a => (t a).script
  plays depth ts := by
    rw [play_bind, s.plays, bind_apply]
    cases r depth ts with
    | ok a rest => exact (t a).plays depth rest
    | error problem rest => rfl
  weighs ts := (s.weighs ts).bind fun a rest => (t a).weighs rest
  within ts := (s.within ts).bind fun a rest => (t a).within rest
  alike h := (s.alike h).bind fun a _ _ h => (t a).alike h

/-- The same script with the same weights, written in another way. -/
def reweigh {r : Nat → Rule α} {start' : Nat} {v' : α → Nat} (s : Scripted r start v)
    (hs : start = start') (hv : ∀ a, v a = v' a) : Scripted r start' v' where
  script := s.script
  plays := s.plays
  weighs := by
    obtain rfl := hs
    obtain rfl : v = v' := funext hv
    exact s.weighs
  within := s.within
  alike := s.alike

def pure (a : α) (h : v a = start) : Scripted (fun _ => (Pure.pure a : Rule α)) start v :=
  plain (leaves_pure a) (fun h => .ok a h) (fun h' => by cases h'; exact h) fun h' => by cases h'

def fail (cause : SyntaxCause) : Scripted (fun _ => (Rule.fail cause : Rule α)) start v :=
  plain (leaves_fail cause) (fun h => .error (.syntactic cause) h) (fun h => by cases h)
    fun h => by cases h; exact ⟨cause, rfl⟩

def ite (c : Prop) [Decidable c] {r r' : Nat → Rule α} (s : Scripted r start v)
    (s' : Scripted r' start v) :
    Scripted (fun depth => if c then r depth else r' depth) start v :=
  if h : c then
    ⟨s.script, fun depth ts => by rw [s.plays, if_pos h], s.weighs, s.within, s.alike⟩
  else
    ⟨s'.script, fun depth ts => by rw [s'.plays, if_neg h], s'.weighs, s'.within, s'.alike⟩

/-- A rule that goes on from its first token, by what it makes of its kind and text. -/
def opens {κ : Type} {r : Nat → Rule α} {P : Token → Prop} [DecidablePred P] {cause : SyntaxCause}
    (key : Token → κ) {k : κ → Nat → Rule α}
    (ho : ∀ depth, Opens (r depth) P cause fun t => k (key t) depth)
    (hP : ∀ {t u : Token}, t.look = u.look → P t → P u)
    (hkey : ∀ {t u : Token}, t.look = u.look → key t = key u)
    (s : ∀ x, Scripted (k x) start v) : Scripted r start v where
  script
    | [] => .error (.syntactic cause) []
    | t :: us => if P t then (s (key t)).script us else .error (.syntactic cause) (t :: us)
  plays depth ts := by
    obtain ⟨t, us, rfl, hp, hr⟩ | ⟨hno, hr⟩ := (ho depth).cases ts
    · simp only [hp, if_true, hr, (s (key t)).plays]
    · cases ts with
      | nil => exact hr.symm
      | cons t us =>
        have hp : ¬P t := hno t rfl
        simp only [hp, if_false, hr]
        rfl
  weighs ts := by
    cases ts with
    | nil => trivial
    | cons t us =>
      by_cases hp : P t
      · simpa only [hp, if_true] using (s (key t)).weighs us
      · simp only [hp, if_false]
        trivial
  within ts := by
    cases ts with
    | nil => exact List.suffix_refl []
    | cons t us =>
      by_cases hp : P t
      · simpa only [hp, if_true] using ((s (key t)).within us).mono (List.suffix_cons t us)
      · simp only [hp, if_false]
        exact List.suffix_refl (t :: us)
  alike {ts us} h := by
    cases ts with
    | nil =>
      obtain rfl := h.nil
      exact .error _ h
    | cons t ts =>
      obtain ⟨u, us, rfl, hlook, hus⟩ := h.cons
      by_cases hp : P t
      · simp only [hp, hP hlook hp, if_true]
        rw [hkey hlook]
        exact (s (key u)).alike hus
      · have hq : ¬P u := fun hq => hp (hP hlook.symm hq)
        simpa only [hp, hq, if_false] using AlikeScript.error _ h

lemma blind_test {test : Rule Bool} {q : List Token → Bool} (h : Tests test q) : test.Blind := by
  intro ts us ha
  rw [h.value, h.value, h.congr ts us (ha.agree 1)]
  exact .ok _ ha

/-- A test that reads nothing. -/
def test {test : Rule Bool} {q : List Token → Bool} (h : Tests test q) (start : Nat) :
    Scripted (fun _ => test) start fun _ => start :=
  plain (lookahead_test h).leaves (blind_test h) (fun _ => rfl) fun he => by
    rw [h.value] at he
    cases he

lemma blind_accept (p : Pattern) : (Rule.accept [p]).Blind := by
  intro ts us h
  cases ts with
  | nil =>
    obtain rfl := h.nil
    exact .ok false h
  | cons t ts =>
    obtain ⟨u, us, rfl, hlook, hus⟩ := h.cons
    rw [accept_cons, accept_cons, p.accepts_congr hlook]
    split
    · exact .ok true hus
    · exact .ok false h

def accept (p : Pattern) (start : Nat) : Scripted (fun _ => Rule.accept [p]) start fun _ => start :=
  plain (leaves_accept [p]) (blind_accept p) (fun _ => rfl) fun h => by
    unfold Rule.accept at h
    split at h <;> cases h

/-- A rule behind a token, or another one if that token is not next. -/
def acceptElse (p : Pattern) {r r' : Nat → Rule α} (s : Scripted r start v)
    (s' : Scripted r' start v) :
    Scripted (fun depth => Rule.accept [p] >>= fun b => if b = true then r depth else r' depth)
      start v :=
  bind (accept p start) fun b => ite (b = true) s s'

/-- An expected token of which nothing is used. -/
def expectThen (p : Pattern) (cause : SyntaxCause) {r : Nat → Rule α} (s : Scripted r start v) :
    Scripted (fun depth => Rule.expect p cause >>= fun _ => r depth) start v :=
  opens (fun _ => ()) (fun _ => opens_expect p cause _)
    (fun h hp => by rwa [← p.accepts_congr h]) (fun _ => rfl) fun _ => s

def name (cause : SyntaxCause) (start : Nat) :
    Scripted (fun _ => Rule.name cause) start fun _ => start :=
  opens Token.text (fun _ => opens_expect (.kind .identifier) cause _)
    (fun h hp => by rwa [← Pattern.accepts_congr _ h]) (fun h => congrArg Prod.snd h)
    fun text => pure text rfl

def behind (p : Pattern) {r : Nat → Rule α} (s : Scripted r start v) :
    Scripted (fun depth => Rule.behind p (r depth)) start fun o => o.elim start v :=
  acceptElse p (bind s fun a => pure (some a) rfl) (pure none rfl)

/-- One round after the other, as long as there is something to add. -/
def rounds {step : Nat → α → Rule (Option α)}
    (s : ∀ a, Scripted (fun depth => step depth a) (v a) fun o => o.elim (v a) v) :
    (fuel : List Token) → (a : α) →
      Scripted (fun depth => roundsOver (step depth) fuel a) (v a) v
  | [], a => bind (s a) fun
    | none => pure a rfl
    | some b => pure b rfl
  | _ :: fuel, a => bind (s a) fun
    | none => pure a rfl
    | some b => rounds s fuel b

lemma rounds_script {step : Nat → α → Rule (Option α)}
    (s : ∀ a, Scripted (fun depth => step depth a) (v a) fun o => o.elim (v a) v)
    {fuel fuel' : List Token} (h : fuel.length = fuel'.length) (a : α) :
    (rounds s fuel a).script = (rounds s fuel' a).script := by
  induction fuel generalizing fuel' a with
  | nil =>
    obtain rfl : fuel' = [] := List.length_eq_zero_iff.mp h.symm
    rfl
  | cons t fuel ih =>
    cases fuel' with
    | nil => cases h
    | cons t' fuel' =>
      have hnext : ∀ b, (rounds s fuel b).script = (rounds s fuel' b).script :=
        ih (Nat.succ.inj h)
      funext ts
      simp only [rounds, bind]
      congr 1
      funext o
      cases o with
      | none => rfl
      | some b => exact hnext b

def repeatedly {step : Nat → α → Rule (Option α)}
    (s : ∀ a, Scripted (fun depth => step depth a) (v a) fun o => o.elim (v a) v) (a : α) :
    Scripted (fun depth => Rule.repeatedly (step depth) a) (v a) v where
  script ts := (rounds s ts a).script ts
  plays depth ts := (rounds s ts a).plays depth ts
  weighs ts := (rounds s ts a).weighs ts
  within ts := (rounds s ts a).within ts
  alike {ts us} h := by
    rw [rounds_script s (show ts.length = us.length from h.length_eq) a]
    exact (rounds s us a).alike h

/-- The items read so far, the last one first, weigh as much as what was read. -/
def collect {item : Nat → Rule (Option α)}
    (s : ∀ start, Scripted item start fun o => o.elim start fun a => max start (v a))
    (start : Nat) (read : List α) :
    Scripted (fun depth => Rule.collect (item depth) read) (max start (deepest v read))
      fun o => o.elim (max start (deepest v read)) fun as => max start (deepest v as) :=
  bind (s (max start (deepest v read))) fun
    | none => pure none rfl
    | some a => pure (some (a :: read)) (by
        simp only [Option.elim, deepest_cons]
        omega)

def collected {item : Nat → Rule (Option α)}
    (s : ∀ start, Scripted item start fun o => o.elim start fun a => max start (v a))
    (start : Nat) :
    Scripted (fun depth => Rule.repeatedly (Rule.collect (item depth)) []) start
      fun as => max start (deepest v as) :=
  reweigh (repeatedly (v := fun as => max start (deepest v as)) (collect s start) [])
    (Nat.max_zero start) fun _ => rfl

def many {item : Nat → Rule (Option α)}
    (s : ∀ start, Scripted item start fun o => o.elim start fun a => max start (v a))
    (start : Nat) :
    Scripted (fun depth => Rule.many (item depth)) start fun as => max start (deepest v as) :=
  bind (collected s start) fun as => pure as.reverse (by rw [deepest_reverse])

end Scripted

end FrontEnd
