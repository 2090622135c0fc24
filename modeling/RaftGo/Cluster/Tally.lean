import RaftGo.Cluster.System

/-! Vote counting. The shared counter of a poll never exceeds the granted votes
that its goroutines have processed, so a candidate that reaches its majority
holds that many granted votes of different peers. -/

namespace RaftGo

open Raft

/-- The reply of a call has arrived and grants the vote. -/
def Phase.granted : Phase RequestVoteReply → Bool
  | .requested => false
  | .replied reply | .resumed reply => reply.voteGranted

/-- A granted reply has been processed by its goroutine. -/
def Phase.tallied : Phase RequestVoteReply → Bool
  | .resumed reply => reply.voteGranted
  | _ => false

@[simp] theorem Phase.granted_replied (reply : RequestVoteReply) :
    (Phase.replied reply).granted = reply.voteGranted := rfl

@[simp] theorem Phase.granted_resumed (reply : RequestVoteReply) :
    (Phase.resumed reply).granted = reply.voteGranted := rfl

@[simp] theorem Phase.tallied_requested : Phase.requested.tallied = false := rfl

@[simp] theorem Phase.tallied_replied (reply : RequestVoteReply) :
    (Phase.replied reply).tallied = false := rfl

@[simp] theorem Phase.tallied_resumed (reply : RequestVoteReply) :
    (Phase.resumed reply).tallied = reply.voteGranted := rfl

theorem Phase.granted_of_tallied {phase : Phase RequestVoteReply} (tallied : phase.tallied = true) :
    phase.granted = true := by
  cases phase with
  | resumed reply => exact tallied
  | _ => cases tallied

/-- Replacing one element moves the count by what the two elements count. -/
theorem countP_set_add {α : Type} (counts : α → Bool) (list : List α) {position : Nat} {old : α}
    (found : list[position]? = some old) (new : α) :
    (list.set position new).countP counts + (counts old).toNat =
      list.countP counts + (counts new).toNat := by
  induction list generalizing position with
  | nil => simp at found
  | cons head rest ih =>
    cases position with
    | zero =>
      have same : head = old := by simpa using found
      subst same
      simp only [List.set_cons_zero, List.countP_cons]
      cases counts head <;> cases counts new <;> simp
    | succ position =>
      have later := ih (by simpa using found)
      simp only [List.set_cons_succ, List.countP_cons]
      omega

namespace Poll

variable {ι : Type} {poll : Poll ι} {call : Nat} {peer : String}
  {phase : Phase RequestVoteReply} {reply : RequestVoteReply}

/-- The peers whose vote has been granted. -/
def supporters (poll : Poll ι) : List String :=
  (poll.calls.filter (·.2.granted)).map Prod.fst

def Tally (poll : Poll ι) : Prop := poll.votes ≤ poll.calls.countP (·.2.tallied) + 1

theorem calls_setPhase (found : poll.calls[call]? = some (peer, phase))
    (fresh : Phase RequestVoteReply) :
    (poll.setPhase call fresh).calls = poll.calls.set call (peer, fresh) := by
  simp [setPhase, List.modify_eq_set_getElem?, found]

theorem Tally.start (caller : ι) (process : KvStore.Process) (args : RequestVoteArgs) :
    (Poll.start caller process args).Tally := by
  simp [Tally, Poll.start]

theorem Tally.serve (tally : poll.Tally) (found : poll.calls[call]? = some (peer, .requested)) :
    (poll.setPhase call (.replied reply)).Tally := by
  have counts := countP_set_add (·.2.tallied) poll.calls found (peer, .replied reply)
  unfold Tally at tally ⊢
  rw [calls_setPhase found, votes_setPhase]
  simp at counts
  omega

/-- Processing a reply counts at most the vote it grants. -/
theorem Tally.resume (tally : poll.Tally)
    (found : poll.calls[call]? = some (peer, .replied reply)) {counted : Bool}
    (honest : counted = true → reply.voteGranted = true) :
    ((poll.setPhase call (.resumed reply)).count counted).Tally := by
  have counts := countP_set_add (·.2.tallied) poll.calls found (peer, .resumed reply)
  unfold Tally at tally ⊢
  rw [calls_count, calls_setPhase found]
  simp only [count, votes_setPhase]
  cases counted with
  | false =>
    simp at counts
    simp
    omega
  | true =>
    simp [honest rfl] at counts
    simp
    omega

/-- A reply that completes the majority means that many granted votes. -/
theorem Tally.enough (tally : poll.Tally)
    (found : poll.calls[call]? = some (peer, .replied reply)) (vote : reply.voteGranted = true)
    (complete : poll.majority ≤ poll.votes + 1) :
    (poll.calls.length + 1) / 2 + 1 ≤ poll.supporters.length + 1 := by
  have tallied := countP_set_add (·.2.tallied) poll.calls found (peer, .resumed reply)
  have granted := countP_set_add (·.2.granted) poll.calls found (peer, .resumed reply)
  have bound : (poll.calls.set call (peer, .resumed reply)).countP (·.2.tallied) ≤
      (poll.calls.set call (peer, .resumed reply)).countP (·.2.granted) :=
    List.countP_mono_left fun _ _ => Phase.granted_of_tallied
  have supported : poll.supporters.length = poll.calls.countP (·.2.granted) := by
    simp [supporters, List.countP_eq_length_filter]
  unfold Tally at tally
  unfold majority at complete
  simp [vote] at tallied granted
  omega

theorem mem_supporters : peer ∈ poll.supporters ↔
    ∃ phase, (peer, phase) ∈ poll.calls ∧ phase.granted = true := by
  simp [supporters]

theorem supporters_sublist : poll.supporters.Sublist (poll.calls.map Prod.fst) :=
  List.filter_sublist.map _

end Poll

end RaftGo
