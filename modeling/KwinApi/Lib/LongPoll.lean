import Mathlib.Data.List.Basic
import Mathlib.Data.List.Perm.Basic
import Mathlib.Data.List.Range

/-!
# Long polling

A mailbox queues messages for requests that fetch them. A request takes everything that is queued,
or is refused, or, when nothing is queued, waits until a message arrives or its time is over. At
most one request waits. The requests are numbered in the order they come in.

The two laws are independent of each other. `Served` is the accounting: no request is answered
twice, no message is handed over twice, and what an answer hands over is the whole queue. It holds
at every moment. `Quiet` says that nobody waits in front of a queued message; an arrival breaks it
and the wake-up that follows restores it.

## Main definitions

* `LongPoll.Mailbox` — the queue, the waiting request and the history
* `LongPoll.Mailbox.Served`, `Quiet` — the two laws
* `LongPoll.Mailbox.Requested` — the ways to deal with one request

## Main results

* `Served.take`, `Served.refuse`, `Served.wait`, `Served.arrive`, `Served.wake`, `Served.expire`,
  `Served.close` — every operation keeps the accounting
* `Quiet.wake`, `Requested.quiet` — and when nobody waits in vain
-/

namespace LongPoll

variable {α ε : Type*}

/-- The answer to one request: a refusal, or messages. `queued` is the number of messages that
were queued when it was made. -/
structure Answer (α ε : Type*) where
  request : ℕ
  queued : ℕ
  result : Except ε (List α)

/-- The messages an answer hands over. -/
def Answer.messages (a : Answer α ε) : List α :=
  match a.result with
  | .ok ms => ms
  | .error _ => []

/-- The queue, the request that waits, and the history: how many requests came in, the answers
so far, the request that waited when the mailbox was closed, and all messages that arrived. -/
structure Mailbox (α ε : Type*) where
  queue : List α
  waiting : Option ℕ
  requests : ℕ
  answers : List (Answer α ε)
  abandoned : Option ℕ
  arrived : List α

namespace Mailbox

/-- A mailbox nobody has used. -/
def empty : Mailbox α ε := ⟨[], none, 0, [], none, []⟩

/-- The messages handed over so far. -/
def handed (m : Mailbox α ε) : List α := m.answers.flatMap Answer.messages

/-- Messages arrive. -/
def arrive (m : Mailbox α ε) (ms : List α) : Mailbox α ε :=
  { m with queue := m.queue ++ ms, arrived := m.arrived ++ ms }

theorem arrive_nil (m : Mailbox α ε) : m.arrive [] = m := by
  simp [arrive]

/-- Answer a request with the whole queue. -/
def handOver (m : Mailbox α ε) (request : ℕ) : Mailbox α ε :=
  { m with
    queue := []
    answers := m.answers ++ [⟨request, m.queue.length, .ok m.queue⟩] }

/-- A request that is answered at once. -/
def take (m : Mailbox α ε) : Mailbox α ε :=
  { m.handOver m.requests with requests := m.requests + 1 }

/-- A request that is refused. -/
def refuse (m : Mailbox α ε) (e : ε) : Mailbox α ε :=
  { m with
    answers := m.answers ++ [⟨m.requests, m.queue.length, .error e⟩]
    requests := m.requests + 1 }

/-- A request that waits. -/
def wait (m : Mailbox α ε) : Mailbox α ε :=
  { m with waiting := some m.requests, requests := m.requests + 1 }

/-- Answer the waiting request when there is something to hand over. -/
def wake (m : Mailbox α ε) : Mailbox α ε :=
  match m.waiting with
  | none => m
  | some r => if m.queue = [] then m else { m.handOver r with waiting := none }

/-- The time of the waiting request is over: answer it with nothing. -/
def expire (m : Mailbox α ε) : Mailbox α ε :=
  match m.waiting with
  | none => m
  | some r =>
    { m with
      waiting := none
      answers := m.answers ++ [⟨r, m.queue.length, .ok []⟩] }

/-- Close the mailbox. -/
def close (m : Mailbox α ε) : Mailbox α ε := { m with waiting := none, abandoned := m.waiting }

/-! ### Accounting -/

/-- Every request is answered once, waits, or was waiting when the mailbox was closed; the messages
handed over and the queue are what arrived; and an answer that hands over messages hands over the
whole queue. -/
structure Served (m : Mailbox α ε) : Prop where
  account : (m.answers.map Answer.request ++ m.waiting.toList ++ m.abandoned.toList).Perm
    (List.range m.requests)
  handed : m.handed ++ m.queue = m.arrived
  whole : ∀ a ∈ m.answers, ∀ ms, a.result = .ok ms → ms.length = a.queued

/-- Nobody waits while a message is queued. -/
def Quiet (m : Mailbox α ε) : Prop := m.waiting ≠ none → m.queue = []

variable {m : Mailbox α ε}

theorem wake_of_none (hw : m.waiting = none) : m.wake = m := by
  rw [wake, hw]

theorem wake_of_nil (hq : m.queue = []) : m.wake = m := by
  rw [wake]
  cases m.waiting with
  | none => rfl
  | some r => exact if_pos hq

theorem wake_of_some {r : ℕ} (hw : m.waiting = some r) (hq : m.queue ≠ []) :
    m.wake = { m.handOver r with waiting := none } := by
  rw [wake, hw]
  exact if_neg hq

theorem expire_of_none (hw : m.waiting = none) : m.expire = m := by
  rw [expire, hw]

theorem expire_of_some {r : ℕ} (hw : m.waiting = some r) : m.expire =
    { m with waiting := none, answers := m.answers ++ [⟨r, m.queue.length, .ok []⟩] } := by
  rw [expire, hw]

/-- A further answer hands over its messages behind the others. -/
theorem handed_append (a : Answer α ε) {m' : Mailbox α ε} (h : m'.answers = m.answers ++ [a]) :
    m'.handed = m.handed ++ a.messages := by
  rw [handed, h, List.flatMap_append, List.flatMap_singleton, handed]

theorem handed_take : m.take.handed = m.handed ++ m.queue :=
  handed_append ⟨m.requests, m.queue.length, .ok m.queue⟩ rfl

theorem handed_refuse (e : ε) : (m.refuse e).handed = m.handed :=
  (handed_append ⟨m.requests, m.queue.length, .error e⟩ rfl).trans (List.append_nil _)

theorem handed_wake_of_some {r : ℕ} (hw : m.waiting = some r) (hq : m.queue ≠ []) :
    m.wake.handed = m.handed ++ m.queue := by
  rw [wake_of_some hw hq]
  exact handed_append ⟨r, m.queue.length, .ok m.queue⟩ rfl

theorem handed_expire : m.expire.handed = m.handed := by
  cases hw : m.waiting with
  | none => rw [expire_of_none hw]
  | some r =>
    rw [expire_of_some hw]
    exact (handed_append ⟨r, m.queue.length, .ok []⟩ rfl).trans (List.append_nil _)

theorem served_empty : (empty : Mailbox α ε).Served := by
  refine ⟨List.Perm.refl _, rfl, ?_⟩
  intro a ha
  cases ha

theorem quiet_empty : (empty : Mailbox α ε).Quiet := fun h => absurd rfl h

theorem Served.arrive (h : m.Served) (ms : List α) : (m.arrive ms).Served := by
  refine ⟨h.account, ?_, h.whole⟩
  show m.handed ++ (m.queue ++ ms) = m.arrived ++ ms
  rw [← List.append_assoc, h.handed]

/-- A further answer hands over the whole queue, or nothing from it. -/
theorem Served.whole_append (h : m.Served) {a : Answer α ε}
    (ha : ∀ ms, a.result = .ok ms → ms.length = a.queued) :
    ∀ b ∈ m.answers ++ [a], ∀ ms, b.result = .ok ms → ms.length = b.queued := by
  intro b hb
  rcases List.mem_append.mp hb with hb | hb
  · exact h.whole b hb
  · rwa [List.mem_singleton.mp hb]

/-- A request that came in and was dealt with at once. -/
theorem Served.account_new (h : m.Served) :
    ((m.answers.map Answer.request ++ [m.requests]) ++ m.waiting.toList ++
      m.abandoned.toList).Perm (List.range (m.requests + 1)) := by
  rw [List.range_succ, List.perm_iff_count]
  intro r
  have hr := List.perm_iff_count.mp h.account r
  simp only [List.count_append] at hr ⊢
  omega

theorem Served.take (h : m.Served) : m.take.Served := by
  refine ⟨?_, ?_, h.whole_append ?_⟩
  · simpa [Mailbox.take, handOver] using h.account_new
  · rw [handed_take, List.append_assoc]
    exact (congrArg _ (List.append_nil _)).trans h.handed
  · intro ms hms
    cases hms
    rfl

theorem Served.refuse (h : m.Served) (e : ε) : (m.refuse e).Served := by
  refine ⟨?_, ?_, h.whole_append ?_⟩
  · simpa [Mailbox.refuse] using h.account_new
  · rw [handed_refuse]
    exact h.handed
  · intro ms hms
    cases hms

theorem Served.wait (h : m.Served) (hw : m.waiting = none) : m.wait.Served := by
  refine ⟨?_, h.handed, h.whole⟩
  have hnew := h.account_new
  rw [hw] at hnew
  simpa [Mailbox.wait] using hnew

/-- The waiting request gets its answer. -/
theorem Served.account_waiting (h : m.Served) {r : ℕ} (hw : m.waiting = some r) :
    ((m.answers.map Answer.request ++ [r]) ++ [] ++ m.abandoned.toList).Perm
      (List.range m.requests) := by
  have hacc := h.account
  rw [hw] at hacc
  simpa using hacc

theorem Served.wake (h : m.Served) : m.wake.Served := by
  cases hw : m.waiting with
  | none => rwa [wake_of_none hw]
  | some r =>
    by_cases hq : m.queue = []
    · rwa [wake_of_nil hq]
    · have hhanded := handed_wake_of_some hw hq
      rw [wake_of_some hw hq] at hhanded ⊢
      refine ⟨?_, ?_, h.whole_append ?_⟩
      · simpa [handOver] using h.account_waiting hw
      · rw [hhanded, List.append_assoc]
        exact (congrArg _ (List.append_nil _)).trans h.handed
      · intro ms hms
        cases hms
        rfl

/-- A wait that ends without a message. That nothing is queued at that moment is what `Quiet` is
for. -/
theorem Served.expire (h : m.Served) (hq : m.Quiet) : m.expire.Served := by
  cases hw : m.waiting with
  | none => rwa [expire_of_none hw]
  | some r =>
    have hnil : m.queue = [] := hq (by simp [hw])
    have hhanded := @handed_expire _ _ m
    rw [expire_of_some hw] at hhanded ⊢
    refine ⟨?_, ?_, h.whole_append ?_⟩
    · simpa using h.account_waiting hw
    · rw [hhanded]
      exact h.handed
    · intro ms hms
      cases hms
      rw [hnil]

theorem Served.close (h : m.Served) (ha : m.abandoned = none) : m.close.Served := by
  refine ⟨?_, h.handed, h.whole⟩
  have hacc := h.account
  rw [ha] at hacc
  simpa [Mailbox.close] using hacc

/-! ### Nobody waits in vain -/

theorem Quiet.of_waiting (h : m.waiting = none) : m.Quiet := fun hw => absurd h hw

theorem Quiet.take : m.take.Quiet := fun _ => rfl

theorem Quiet.wait (h : m.queue = []) : m.wait.Quiet := fun _ => h

theorem Quiet.refuse (h : m.Quiet) (e : ε) : (m.refuse e).Quiet := h

theorem Quiet.wake : m.wake.Quiet := by
  cases hw : m.waiting with
  | none =>
    rw [wake_of_none hw]
    exact .of_waiting hw
  | some r =>
    by_cases hq : m.queue = []
    · rw [wake_of_nil hq]
      exact fun _ => hq
    · rw [wake_of_some hw hq]
      exact .of_waiting rfl

theorem Quiet.expire : m.expire.Quiet := by
  cases hw : m.waiting with
  | none =>
    rw [expire_of_none hw]
    exact .of_waiting hw
  | some r =>
    rw [expire_of_some hw]
    exact .of_waiting rfl

theorem Quiet.close : m.close.Quiet := .of_waiting rfl

/-! ### One request -/

/-- The three ways to deal with a request: it is refused, takes the whole queue, or waits at an
empty queue nobody else is waiting at. -/
inductive Requested (m : Mailbox α ε) : Mailbox α ε → Prop
  | refused (e : ε) : Requested m (m.refuse e)
  | taken : Requested m m.take
  | waits (hw : m.waiting = none) (hq : m.queue = []) : Requested m m.wait

namespace Requested

variable {m' : Mailbox α ε}

theorem served (h : Requested m m') (hm : m.Served) : m'.Served := by
  cases h with
  | refused e => exact hm.refuse e
  | taken => exact hm.take
  | waits hw hq => exact hm.wait hw

theorem quiet (h : Requested m m') (hm : m.Quiet) : m'.Quiet := by
  cases h with
  | refused e => exact hm.refuse e
  | taken => exact .take
  | waits hw hq => exact .wait hq

theorem arrived (h : Requested m m') : m'.arrived = m.arrived := by
  cases h <;> rfl

theorem abandoned (h : Requested m m') : m'.abandoned = m.abandoned := by
  cases h <;> rfl

end Requested

/-! ### What waking and expiring leave alone -/

@[simp] theorem arrived_wake (m : Mailbox α ε) : m.wake.arrived = m.arrived := by
  rw [wake]
  split
  · rfl
  · split_ifs <;> rfl

@[simp] theorem abandoned_wake (m : Mailbox α ε) : m.wake.abandoned = m.abandoned := by
  rw [wake]
  split
  · rfl
  · split_ifs <;> rfl

/-- Where nobody waits in vain there is nobody to wake. -/
theorem Quiet.wake_eq {m : Mailbox α ε} (h : m.Quiet) : m.wake = m := by
  cases hw : m.waiting with
  | none => exact wake_of_none hw
  | some r => exact wake_of_nil (h (by rw [hw]; exact Option.some_ne_none r))

@[simp] theorem queue_expire (m : Mailbox α ε) : m.expire.queue = m.queue := by
  rw [expire]
  split <;> rfl

@[simp] theorem arrived_expire (m : Mailbox α ε) : m.expire.arrived = m.arrived := by
  rw [expire]
  split <;> rfl

@[simp] theorem abandoned_expire (m : Mailbox α ε) : m.expire.abandoned = m.abandoned := by
  rw [expire]
  split <;> rfl

end Mailbox

end LongPoll
