import KwinApi.Lib.Past
import Mathlib.Data.Option.Basic

/-!
# Claims proved in public

A registry hands out tokens. Whoever holds a token proves that a thing is theirs by making the
thing show the token in public before the token's deadline: the first thing that shows it is
bound to it. The proof stays open until the deadline, and a second thing that shows an open token
voids it. A thing carries at most one token: binding it anew evicts the old token.

## Main definitions

* `KwinApi.Claim`, `Registry` — what a token stands for at a moment
* `KwinApi.ClaimAct` — what can happen to claims, and `Registry.step`, `Registry.after`
* `Waiting`, `Running`, `Earned` — the same, said about the history only

## Main results

* `Registry.after_agrees` — the registry after a history is what the history says
-/

namespace KwinApi

/-- What a token stands for: who asked for it, the thing it is bound to, and whether its deadline
is still ahead. -/
@[ext]
structure Claim (ι ω : Type*) where
  /-- Who asked for the token. -/
  owner : ι
  /-- The thing that showed it first. -/
  bound : Option ω
  /-- The deadline is still ahead. -/
  isOpen : Bool
  deriving DecidableEq, Repr

/-- What the deadline leaves of a claim: nothing if it is not bound yet. -/
def Claim.close {ι ω : Type*} (cl : Claim ι ω) : Option (Claim ι ω) :=
  cl.bound.map fun w => ⟨cl.owner, some w, false⟩

/-- The claims in force, by token. -/
abbrev Registry (τ ι ω : Type*) := τ → Option (Claim ι ω)

/-- What can happen to claims. -/
inductive ClaimAct (τ ι ω κ : Type*) where
  /-- A fresh token is handed to an owner. -/
  | issue (t : τ) (c : ι)
  /-- A thing shows a token. -/
  | shows (w : ω) (t : τ)
  /-- A thing goes away. -/
  | remove (w : ω)
  /-- The deadline of a token passes. -/
  | fire (t : τ)
  /-- Everything of the owners with this key is dropped. -/
  | drop (k : κ)
  deriving DecidableEq, Repr

variable {τ ι ω κ : Type*}

/-! ### What a history says -/

/-- Since it was handed to `c` nothing has shown the token, its deadline has not passed and
`c`'s claims have not been dropped. -/
def Waiting (key : ι → κ) (c : ι) (t : τ) : List (ClaimAct τ ι ω κ) → Prop :=
  Since (fun a _ => (∀ c', a ≠ .issue t c') ∧ (∀ w, a ≠ .shows w t) ∧ a ≠ .fire t ∧
    a ≠ .drop (key c)) fun a _ => a = .issue t c

/-- The deadline has not passed since the token was last handed out. -/
def Running (t : τ) : List (ClaimAct τ ι ω κ) → Prop :=
  Since (fun a _ => a ≠ .fire t) fun a _ => ∃ c, a = .issue t c

/-- `w` was the first thing to show the token while it waited for `c`, and since then the token
was not handed out again, `w` has not gone, no other thing has shown the token before its
deadline, no other waiting token was shown by `w` and `c`'s claims have not been dropped. -/
def Earned (key : ι → κ) (c : ι) (t : τ) (w : ω) : List (ClaimAct τ ι ω κ) → Prop :=
  Since
    (fun a past => (∀ c', a ≠ .issue t c') ∧ a ≠ .remove w ∧
      (∀ w', w' ≠ w → a = .shows w' t → ¬ Running t past) ∧
      (∀ u c', u ≠ t → a = .shows w u → ¬ Waiting key c' u past) ∧
      a ≠ .drop (key c))
    fun a past => a = .shows w t ∧ Waiting key c t past

/-! ### One act in the history -/

variable {key : ι → κ} {h : List (ClaimAct τ ι ω κ)} {t : τ} {c : ι} {w : ω}

theorem waiting_issue {t' : τ} {c' : ι} :
    Waiting key c t (.issue t' c' :: h) ↔
      (t' = t ∧ c' = c) ∨ (t' ≠ t ∧ Waiting key c t h) := by
  simp [Waiting, since_cons]

theorem waiting_shows {t' : τ} {w' : ω} :
    Waiting key c t (.shows w' t' :: h) ↔ t' ≠ t ∧ Waiting key c t h := by
  simp [Waiting, since_cons]

theorem waiting_remove {w' : ω} : Waiting key c t (.remove w' :: h) ↔ Waiting key c t h := by
  simp [Waiting, since_cons]

theorem waiting_fire {t' : τ} :
    Waiting key c t (.fire t' :: h) ↔ t' ≠ t ∧ Waiting key c t h := by
  simp [Waiting, since_cons]

theorem waiting_drop {k : κ} :
    Waiting key c t (.drop k :: h) ↔ k ≠ key c ∧ Waiting key c t h := by
  simp [Waiting, since_cons]

theorem running_issue {t' : τ} {c' : ι} :
    Running t (.issue t' c' :: h) ↔ t' = t ∨ Running t h := by
  simp [Running, since_cons]

theorem running_fire {t' : τ} : Running t (.fire t' :: h) ↔ t' ≠ t ∧ Running t h := by
  simp [Running, since_cons]

theorem running_shows {t' : τ} {w' : ω} : Running t (.shows w' t' :: h) ↔ Running t h := by
  simp [Running, since_cons]

theorem running_remove {w' : ω} : Running t (.remove w' :: h) ↔ Running t h := by
  simp [Running, since_cons]

theorem running_drop {k : κ} : Running t (.drop k :: h) ↔ Running t h := by
  simp [Running, since_cons]

theorem earned_issue {t' : τ} {c' : ι} :
    Earned key c t w (.issue t' c' :: h) ↔ t' ≠ t ∧ Earned key c t w h := by
  simp [Earned, since_cons]

theorem earned_shows {t' : τ} {w' : ω} :
    Earned key c t w (.shows w' t' :: h) ↔
      (w' = w ∧ t' = t ∧ Waiting key c t h) ∨
      ((w' ≠ w → t' = t → ¬ Running t h) ∧
        (∀ c', t' ≠ t → w' = w → ¬ Waiting key c' t' h) ∧ Earned key c t w h) := by
  simp only [Earned, since_cons, ne_eq, reduceCtorEq, not_false_eq_true, implies_true,
    ClaimAct.shows.injEq, true_and, and_true, and_assoc]
  refine or_congr Iff.rfl (and_congr ?_ (and_congr ?_ Iff.rfl))
  · constructor
    · intro hw hne ht
      exact hw w' hne ⟨rfl, ht⟩
    · rintro hw w'' hne ⟨rfl, ht⟩
      exact hw hne ht
  · constructor
    · intro hu c' hne hw
      exact hu t' c' hne ⟨hw, rfl⟩
    · rintro hu u c' hne ⟨hw, rfl⟩
      exact hu c' hne hw

theorem earned_remove {w' : ω} :
    Earned key c t w (.remove w' :: h) ↔ w' ≠ w ∧ Earned key c t w h := by
  simp [Earned, since_cons]

theorem earned_fire {t' : τ} : Earned key c t w (.fire t' :: h) ↔ Earned key c t w h := by
  simp [Earned, since_cons]

theorem earned_drop {k : κ} :
    Earned key c t w (.drop k :: h) ↔ k ≠ key c ∧ Earned key c t w h := by
  simp [Earned, since_cons]

/-! ### The registry -/

variable [DecidableEq τ] [DecidableEq ω] [DecidableEq κ]

namespace Registry

/-- The token is bound to the thing. -/
def Holds (R : Registry τ ι ω) (t : τ) (w : ω) : Prop := ∃ c o, R t = some ⟨c, some w, o⟩

/-- Drop the claims that fail the test. -/
def keep (p : Claim ι ω → Bool) (R : Registry τ ι ω) : Registry τ ι ω :=
  fun t => (R t).filter p

/-- Bind a token: whatever the thing carried before is evicted. -/
def bind (R : Registry τ ι ω) (t : τ) (w : ω) (c : ι) : Registry τ ι ω :=
  Function.update (R.keep fun cl => cl.bound ≠ some w) t (some ⟨c, some w, true⟩)

/-- One act. -/
def step (key : ι → κ) (R : Registry τ ι ω) : ClaimAct τ ι ω κ → Registry τ ι ω
  | .issue t c => Function.update R t (some ⟨c, none, true⟩)
  | .shows w t =>
    match R t with
    | some ⟨c, none, true⟩ => R.bind t w c
    | some ⟨_, some b, true⟩ => if b = w then R else Function.update R t none
    | _ => R
  | .remove w => R.keep fun cl => cl.bound ≠ some w
  | .fire t => Function.update R t ((R t).bind Claim.close)
  | .drop k => R.keep fun cl => key cl.owner ≠ k

/-- The registry after a history, the latest act first. -/
def after (key : ι → κ) : List (ClaimAct τ ι ω κ) → Registry τ ι ω
  | [] => fun _ => none
  | a :: h => (after key h).step key a

end Registry

/-! ### The registry agrees with the history -/

/-- The registry holds what the history says. -/
structure Registry.Agrees (key : ι → κ) (R : Registry τ ι ω) (h : List (ClaimAct τ ι ω κ)) :
    Prop where
  /-- The unbound claims are those that wait. -/
  waiting : ∀ c t, Waiting key c t h ↔ R t = some ⟨c, none, true⟩
  /-- The bound claims are those that were earned. -/
  earned : ∀ c t w, Earned key c t w h ↔ ∃ o, R t = some ⟨c, some w, o⟩
  /-- A claim is open while its deadline is ahead. -/
  running : ∀ t cl, R t = some cl → (cl.isOpen = true ↔ Running t h)
  /-- An unbound claim is open. -/
  pending : ∀ t c o, R t = some ⟨c, none, o⟩ → o = true

namespace Registry

omit [DecidableEq τ] [DecidableEq ω] in
/-- What `keep` keeps of a claim. -/
theorem keep_eq_some {p : Claim ι ω → Bool} {R : Registry τ ι ω} {t : τ} {cl : Claim ι ω} :
    R.keep p t = some cl ↔ R t = some cl ∧ p cl = true :=
  Option.filter_eq_some_iff

theorem bind_self (R : Registry τ ι ω) (t : τ) (w : ω) (c : ι) :
    R.bind t w c t = some ⟨c, some w, true⟩ :=
  Function.update_self ..

theorem bind_of_ne {R : Registry τ ι ω} {t u : τ} {w : ω} {c : ι} {cl : Claim ι ω} (h : u ≠ t) :
    R.bind t w c u = some cl ↔ R u = some cl ∧ cl.bound ≠ some w := by
  rw [bind, Function.update_of_ne h, keep_eq_some]
  simp

variable {R : Registry τ ι ω}

theorem Agrees.issue (hR : R.Agrees key h) (t : τ) (c : ι) :
    (R.step key (.issue t c)).Agrees key (.issue t c :: h) := by
  refine ⟨fun c' t' => ?_, fun c' t' w => ?_, fun t' cl hcl => ?_, fun t' c' o ho => ?_⟩
  all_goals by_cases ht : t' = t
  · subst ht
    simp [waiting_issue, step]
  · simp [waiting_issue, step, Function.update_of_ne ht, Ne.symm ht, hR.waiting]
  · subst ht
    simp [earned_issue, step]
  · simp [earned_issue, step, Function.update_of_ne ht, Ne.symm ht, hR.earned]
  · subst ht
    rw [step, Function.update_self] at hcl
    cases hcl
    simp [running_issue]
  · rw [step, Function.update_of_ne ht] at hcl
    rw [hR.running t' cl hcl, running_issue]
    simp [Ne.symm ht]
  · subst ht
    rw [step, Function.update_self] at ho
    cases ho
    rfl
  · rw [step, Function.update_of_ne ht] at ho
    exact hR.pending t' c' o ho

omit [DecidableEq κ] in
/-- A waiting token is shown: it is bound, and the old token of the thing is evicted. -/
theorem Agrees.shows_waiting (hR : R.Agrees key h) {t₀ : τ} {c₀ : ι} (w₀ : ω)
    (ht₀ : R t₀ = some ⟨c₀, none, true⟩) :
    (R.bind t₀ w₀ c₀).Agrees key (.shows w₀ t₀ :: h) := by
  have hwait : Waiting key c₀ t₀ h := (hR.waiting c₀ t₀).mpr ht₀
  have hrun : Running t₀ h := (hR.running t₀ _ ht₀).mp rfl
  refine ⟨fun c t => ?_, fun c t w => ?_, fun t cl hcl => ?_, fun t c o ho => ?_⟩
  all_goals by_cases ht : t = t₀
  · subst ht
    simp [waiting_shows, bind_self]
  · rw [waiting_shows, bind_of_ne ht, hR.waiting]
    simp [Ne.symm ht]
  · subst ht
    rw [earned_shows, bind_self, hR.earned, hR.waiting, ht₀]
    simp [eq_comm, and_comm]
  · rw [earned_shows, hR.earned]
    simp only [bind_of_ne ht]
    constructor
    · rintro (⟨-, rfl, -⟩ | ⟨-, hu, o, ho⟩)
      · exact absurd rfl ht
      · refine ⟨o, ho, fun hw => hu c₀ (Ne.symm ht) ?_ hwait⟩
        exact (Option.some.inj hw).symm
    · rintro ⟨o, ho, hw⟩
      refine Or.inr ⟨fun _ heq => absurd heq.symm ht, fun c' _ heq => ?_, o, ho⟩
      exact absurd (congrArg some heq.symm) hw
  · subst ht
    rw [bind_self] at hcl
    cases hcl
    simpa [running_shows] using hrun
  · rw [bind_of_ne ht] at hcl
    rw [running_shows]
    exact hR.running t cl hcl.1
  · subst ht
    simp [bind_self] at ho
  · rw [bind_of_ne ht] at ho
    exact hR.pending t c o ho.1

omit [DecidableEq κ] in
/-- A second thing shows an open token: the token is withdrawn. -/
theorem Agrees.shows_other (hR : R.Agrees key h) {t₀ : τ} {c₀ : ι} {b w₀ : ω} (hb : b ≠ w₀)
    (ht₀ : R t₀ = some ⟨c₀, some b, true⟩) :
    Agrees key (Function.update R t₀ none) (.shows w₀ t₀ :: h) := by
  have hrun : Running t₀ h := (hR.running t₀ _ ht₀).mp rfl
  have hwait : ∀ c, ¬ Waiting key c t₀ h := fun c => by simp [hR.waiting, ht₀]
  refine ⟨fun c t => ?_, fun c t w => ?_, fun t cl hcl => ?_, fun t c o ho => ?_⟩
  all_goals by_cases ht : t = t₀
  · subst ht
    simp [waiting_shows]
  · simp [waiting_shows, Function.update_of_ne ht, Ne.symm ht, hR.waiting]
  · subst ht
    simp only [earned_shows, Function.update_self, hwait, hR.earned, ht₀]
    simp [hrun]
    rintro rfl - hw
    exact hb hw
  · simp [earned_shows, Function.update_of_ne ht, Ne.symm ht, hwait, hR.earned]
  · subst ht
    simp at hcl
  · rw [Function.update_of_ne ht] at hcl
    rw [running_shows]
    exact hR.running t cl hcl
  · subst ht
    simp at ho
  · rw [Function.update_of_ne ht] at ho
    exact hR.pending t c o ho

omit [DecidableEq τ] [DecidableEq ω] [DecidableEq κ] in
/-- Showing a token that is neither waiting nor open on another thing changes nothing. -/
theorem Agrees.shows_idle (hR : R.Agrees key h) {t₀ : τ} {w₀ : ω}
    (hidle : ∀ c b, R t₀ = some ⟨c, b, true⟩ → b = some w₀) :
    R.Agrees key (.shows w₀ t₀ :: h) := by
  have hwait : ∀ c, ¬ Waiting key c t₀ h := by
    intro c hc
    have := hidle c none ((hR.waiting c t₀).mp hc)
    contradiction
  refine ⟨fun c t => ?_, fun c t w => ?_, fun t cl hcl => ?_, hR.pending⟩
  · rw [waiting_shows, hR.waiting]
    refine and_iff_right_of_imp fun ht => ?_
    rintro rfl
    exact hwait c ((hR.waiting c t₀).mpr ht)
  · rw [earned_shows, hR.earned]
    constructor
    · rintro (⟨-, rfl, hw⟩ | ⟨-, -, ho⟩)
      · exact absurd hw (hwait c)
      · exact ho
    · rintro ⟨o, ho⟩
      refine Or.inr ⟨?_, fun c' _ _ => hwait c', o, ho⟩
      rintro hne rfl hrun
      have hopen : o = true := (hR.running t₀ _ ho).mpr hrun
      have hw := hidle c (some w) (by rw [ho, hopen])
      exact hne (Option.some.inj hw).symm
  · rw [running_shows]
    exact hR.running t cl hcl

theorem Agrees.shows (hR : R.Agrees key h) (w₀ : ω) (t₀ : τ) :
    (R.step key (.shows w₀ t₀)).Agrees key (.shows w₀ t₀ :: h) := by
  rw [step]
  split
  · exact hR.shows_waiting w₀ ‹_›
  · rename_i c b ht₀
    split_ifs with hb
    · refine hR.shows_idle fun c' b' hb' => ?_
      rw [ht₀] at hb'
      cases hb'
      rw [hb]
    · exact hR.shows_other hb ht₀
  · rename_i hnone hsome
    refine hR.shows_idle fun c b hb => ?_
    cases b with
    | none => exact absurd hb (hnone c)
    | some b => exact absurd hb (hsome c b)

theorem Agrees.remove (hR : R.Agrees key h) (w₀ : ω) :
    (R.step key (.remove w₀)).Agrees key (.remove w₀ :: h) := by
  simp only [step]
  refine ⟨fun c t => ?_, fun c t w => ?_, fun t cl hcl => ?_, fun t c o ho => ?_⟩
  · rw [waiting_remove, keep_eq_some, hR.waiting]
    simp
  · simp only [earned_remove, keep_eq_some, hR.earned, decide_eq_true_eq, ne_eq,
      Option.some.injEq, exists_and_right, @eq_comm _ w₀]
    rw [and_comm]
  · rw [keep_eq_some] at hcl
    rw [running_remove]
    exact hR.running t cl hcl.1
  · rw [keep_eq_some] at ho
    exact hR.pending t c o ho.1

theorem Agrees.drop (hR : R.Agrees key h) (k : κ) :
    (R.step key (.drop k)).Agrees key (.drop k :: h) := by
  simp only [step]
  refine ⟨fun c t => ?_, fun c t w => ?_, fun t cl hcl => ?_, fun t c o ho => ?_⟩
  · simp only [waiting_drop, keep_eq_some, hR.waiting, decide_eq_true_eq, ne_eq, @eq_comm _ k]
    rw [and_comm]
  · simp only [earned_drop, keep_eq_some, hR.earned, decide_eq_true_eq, ne_eq,
      exists_and_right, @eq_comm _ k]
    rw [and_comm]
  · rw [keep_eq_some] at hcl
    rw [running_drop]
    exact hR.running t cl hcl.1
  · rw [keep_eq_some] at ho
    exact hR.pending t c o ho.1

theorem Agrees.fire (hR : R.Agrees key h) (t₀ : τ) :
    (R.step key (.fire t₀)).Agrees key (.fire t₀ :: h) := by
  simp only [step]
  refine ⟨fun c t => ?_, fun c t w => ?_, fun t cl hcl => ?_, fun t c o ho => ?_⟩
  all_goals by_cases ht : t = t₀
  · subst ht
    simp [waiting_fire, Claim.close, Option.bind_eq_some_iff]
  · simp [waiting_fire, Function.update_of_ne ht, Ne.symm ht, hR.waiting]
  · subst ht
    rw [earned_fire, hR.earned]
    simp only [Function.update_self, Option.bind_eq_some_iff, Claim.close, Option.map_eq_some_iff,
      Claim.mk.injEq, Option.some.injEq]
    constructor
    · rintro ⟨o, ho⟩
      exact ⟨false, _, ho, w, rfl, rfl, rfl, rfl⟩
    · rintro ⟨-, ⟨c', b, o⟩, hcl, w', hb, rfl, rfl, -⟩
      exact ⟨o, by rw [hcl, show b = some w' from hb]⟩
  · simp [earned_fire, Function.update_of_ne ht, hR.earned]
  · subst ht
    rw [Function.update_self, Option.bind_eq_some_iff] at hcl
    obtain ⟨cl', -, hcl⟩ := hcl
    obtain ⟨w, -, rfl⟩ := Option.map_eq_some_iff.mp hcl
    simp [running_fire]
  · rw [Function.update_of_ne ht] at hcl
    rw [running_fire, hR.running t cl hcl]
    simp [Ne.symm ht]
  · subst ht
    simp [Claim.close, Option.bind_eq_some_iff] at ho
  · rw [Function.update_of_ne ht] at ho
    exact hR.pending t c o ho

/-- One act keeps registry and history in agreement. -/
theorem Agrees.step (hR : R.Agrees key h) (a : ClaimAct τ ι ω κ) :
    (R.step key a).Agrees key (a :: h) := by
  cases a with
  | issue t c => exact hR.issue t c
  | shows w t => exact hR.shows w t
  | remove w => exact hR.remove w
  | fire t => exact hR.fire t
  | drop k => exact hR.drop k

/-- The registry after a history is what the history says. -/
theorem after_agrees (key : ι → κ) (h : List (ClaimAct τ ι ω κ)) :
    (after key h : Registry τ ι ω).Agrees key h := by
  induction h with
  | nil => exact ⟨by simp [Waiting, after], by simp [Earned, after], nofun, nofun⟩
  | cons a h ih => exact ih.step a

end Registry

end KwinApi
