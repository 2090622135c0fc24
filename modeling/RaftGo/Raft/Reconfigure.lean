import Mathlib.Data.Finset.Card
import RaftGo.Raft.Cases

/-! What a sequence of membership changes makes of a node's peers. Each address is
decided by the last change that concerns it: its own addition or removal, or the
removal of the node, which forgets everybody. -/

namespace RaftGo.Raft

namespace LogEntry

/-- What a change makes of an address among the peers of the node at `self`. -/
def effect? (entry : LogEntry) (self addr : String) : Option Bool :=
  match entry.configOp with
  | .add => if entry.configPeer = addr ∧ addr ≠ self then some true else none
  | .remove => if entry.configPeer = self ∨ entry.configPeer = addr then some false else none
  | .unset => none

theorem mem_reconfigure (entry : LogEntry) (self addr : String) (peers : List String) :
    addr ∈ entry.reconfigure self peers ↔
      (entry.effect? self addr).getD (decide (addr ∈ peers)) = true := by
  unfold reconfigure effect?
  cases entry.configOp with
  | unset => simp
  | add =>
    by_cases known : entry.configPeer = self ∨ entry.configPeer ∈ peers
    · simp only [known, ↓reduceIte]
      split
      · rename_i added
        simp only [Option.getD_some, iff_true]
        rcases known with same | member
        · exact absurd (added.1.symm.trans same) added.2
        · exact added.1 ▸ member
      · simp
    · simp only [known, ↓reduceIte, List.mem_append, List.mem_singleton]
      split
      · rename_i added
        simp [added.1]
      · rename_i other
        have apart : addr ≠ entry.configPeer := by
          rintro rfl
          exact other ⟨rfl, (not_or.mp known).1⟩
        simp [apart]
  | remove =>
    by_cases leaves : entry.configPeer = self
    · simp [leaves]
    · by_cases named : entry.configPeer = addr
      · simp [named]
      · simp [leaves, named, Ne.symm named]

end LogEntry

/-- The peers after a sequence of changes. -/
def reconfigureAll (self : String) (peers : List String) (changes : List LogEntry) : List String :=
  changes.foldl (fun peers entry => entry.reconfigure self peers) peers

/-- What the last change that concerns an address makes of it. -/
def lastEffect (self addr : String) (changes : List LogEntry) : Option Bool :=
  changes.foldl (fun last entry => (entry.effect? self addr).or last) none

section

variable (self addr : String) (peers : List String) (changes : List LogEntry) (entry : LogEntry)

@[simp] theorem reconfigureAll_nil : reconfigureAll self peers [] = peers := rfl

@[simp] theorem reconfigureAll_snoc : reconfigureAll self peers (changes ++ [entry]) =
    entry.reconfigure self (reconfigureAll self peers changes) := by
  simp [reconfigureAll]

theorem reconfigureAll_append (later : List LogEntry) :
    reconfigureAll self peers (changes ++ later) =
      reconfigureAll self (reconfigureAll self peers changes) later := by
  simp [reconfigureAll]

@[simp] theorem lastEffect_snoc : lastEffect self addr (changes ++ [entry]) =
    (entry.effect? self addr).or (lastEffect self addr changes) := by
  simp [lastEffect]

theorem mem_reconfigureAll : addr ∈ reconfigureAll self peers changes ↔
    (lastEffect self addr changes).getD (decide (addr ∈ peers)) = true := by
  induction changes using List.reverseRecOn with
  | nil => simp [lastEffect]
  | append_singleton earlier entry ih =>
    rw [reconfigureAll_snoc, lastEffect_snoc, LogEntry.mem_reconfigure]
    cases entry.effect? self addr with
    | some decided => simp
    | none => simp [ih]

end

theorem lastEffect_append (self addr : String) (first second : List LogEntry) :
    lastEffect self addr (first ++ second) =
      (lastEffect self addr second).or (lastEffect self addr first) := by
  induction second using List.reverseRecOn with
  | nil => simp [lastEffect]
  | append_singleton earlier entry ih =>
    rw [← List.append_assoc, lastEffect_snoc, lastEffect_snoc, ih, Option.or_assoc]

theorem lastEffect_eq_none {self addr : String} {changes : List LogEntry} :
    lastEffect self addr changes = none ↔ ∀ entry ∈ changes, entry.effect? self addr = none := by
  induction changes using List.reverseRecOn with
  | nil => simp [lastEffect]
  | append_singleton earlier entry ih =>
    simp only [lastEffect_snoc, Option.or_eq_none_iff, ih, List.mem_append, List.mem_singleton]
    constructor
    · rintro ⟨last, before⟩ other (old | rfl)
      · exact before other old
      · exact last
    · exact fun all => ⟨all entry (.inr rfl), fun other old => all other (.inl old)⟩

/-- The change that decides an address, and those after it that leave it alone. -/
theorem exists_decisive {self addr : String} {changes : List LogEntry} {verdict : Bool}
    (decided : lastEffect self addr changes = some verdict) :
    ∃ earlier entry later, changes = earlier ++ entry :: later ∧
      entry.effect? self addr = some verdict ∧
      ∀ other ∈ later, other.effect? self addr = none := by
  induction changes using List.reverseRecOn with
  | nil => cases decided
  | append_singleton earlier entry ih =>
    rw [lastEffect_snoc] at decided
    cases named : entry.effect? self addr with
    | some outcome =>
      rw [named, Option.some_or] at decided
      exact ⟨earlier, entry, [], rfl, named.trans decided, by simp⟩
    | none =>
      rw [named, Option.none_or] at decided
      obtain ⟨first, decisive, rest, rfl, verdict, silent⟩ := ih decided
      refine ⟨first, decisive, rest ++ [entry], by simp, verdict, ?_⟩
      intro other member
      rcases List.mem_append.mp member with old | last
      · exact silent other old
      · exact List.mem_singleton.mp last ▸ named

/-- Whether an address is a peer after the changes. -/
def outcome (cfg : Config) (addr : String) (changes : List LogEntry) : Bool :=
  (lastEffect cfg.selfAddr addr changes).getD (decide (addr ∈ cfg.peers))

theorem outcome_decided {cfg : Config} {addr : String} {earlier later : List LogEntry}
    {entry : LogEntry} {verdict : Bool} (named : entry.effect? cfg.selfAddr addr = some verdict)
    (silent : ∀ other ∈ later, other.effect? cfg.selfAddr addr = none) :
    outcome cfg addr (earlier ++ entry :: later) = verdict := by
  have last : lastEffect cfg.selfAddr addr (entry :: later) = some verdict := by
    rw [← List.singleton_append, lastEffect_append, lastEffect_eq_none.mpr silent, Option.none_or]
    simpa [lastEffect] using named
  rw [outcome, lastEffect_append, last, Option.some_or, Option.getD_some]

/-- A change missing from `seen` that no later one overrules has its outcome
already, by the configuration or by what was seen. -/
def Redundant (cfg : Config) (seen all : List LogEntry) : Prop :=
  ∀ earlier entry later addr verdict, all = earlier ++ entry :: later →
    entry.effect? cfg.selfAddr addr = some verdict →
    (∀ other ∈ later, other.effect? cfg.selfAddr addr = none) →
    entry ∉ seen → outcome cfg addr seen = verdict

/-- What was seen decides a decisive change the same way, wherever it was seen. -/
theorem outcome_of_seen {cfg : Config} {addr : String} {seen earlier later : List LogEntry}
    {entry : LogEntry} {verdict : Bool} (part : seen.Sublist (earlier ++ entry :: later))
    (unique : (earlier ++ entry :: later).Nodup)
    (named : entry.effect? cfg.selfAddr addr = some verdict)
    (silent : ∀ other ∈ later, other.effect? cfg.selfAddr addr = none) (member : entry ∈ seen) :
    outcome cfg addr seen = verdict := by
  obtain ⟨front, back, rfl, inFront, inBack⟩ := List.sublist_append_iff.mp part
  have apart := List.nodup_append.mp unique
  have absent : entry ∉ front :=
    fun found => apart.2.2 entry (inFront.subset found) entry List.mem_cons_self rfl
  have present : entry ∈ back := (List.mem_append.mp member).resolve_left absent
  cases inBack with
  | cons _ skipped => exact absurd (skipped.subset present) (List.nodup_cons.mp apart.2.1).1
  | cons_cons _ rest =>
    exact outcome_decided named fun other found => silent other (rest.subset found)

/-- Part of the changes give the same peers as all of them exactly when what is
missing was redundant. -/
theorem outcome_eq_iff_redundant {cfg : Config} {seen all : List LogEntry}
    (part : seen.Sublist all) (unique : all.Nodup) :
    (∀ addr, outcome cfg addr seen = outcome cfg addr all) ↔ Redundant cfg seen all := by
  constructor
  · rintro same earlier entry later addr verdict rfl named silent _
    exact (same addr).trans (outcome_decided named silent)
  · intro redundant addr
    cases decided : lastEffect cfg.selfAddr addr all with
    | none =>
      have silent := lastEffect_eq_none.mp decided
      have unseen : lastEffect cfg.selfAddr addr seen = none :=
        lastEffect_eq_none.mpr fun entry member => silent entry (part.subset member)
      rw [outcome, outcome, decided, unseen]
    | some verdict =>
      obtain ⟨earlier, entry, later, rfl, named, silent⟩ := exists_decisive decided
      rw [outcome_decided named silent]
      by_cases member : entry ∈ seen
      · exact outcome_of_seen part unique named silent member
      · exact redundant earlier entry later addr verdict rfl named silent member

/-- The members of a cluster after a change. -/
def LogEntry.alter (entry : LogEntry) (members : Finset String) : Finset String :=
  match entry.configOp with
  | .add => insert entry.configPeer members
  | .remove => members.erase entry.configPeer
  | .unset => members

def alterAll (members : Finset String) (changes : List LogEntry) : Finset String :=
  changes.foldl (fun members entry => entry.alter members) members

@[simp] theorem alterAll_snoc (members : Finset String) (changes : List LogEntry)
    (entry : LogEntry) :
    alterAll members (changes ++ [entry]) = entry.alter (alterAll members changes) := by
  simp [alterAll]

/-- The change takes the node itself out. -/
def LogEntry.Removes (entry : LogEntry) (addr : String) : Prop :=
  entry.configOp = .remove ∧ entry.configPeer = addr

/-- If members only leave, those that remain have been there from the beginning. -/
theorem mem_alterAll_of_removals {members : Finset String} {changes : List LogEntry}
    (removals : ∀ entry ∈ changes, entry.configOp = .remove) {addr : String}
    (member : addr ∈ alterAll members changes) :
    addr ∈ members ∧ ∀ entry ∈ changes, ¬ entry.Removes addr := by
  induction changes using List.reverseRecOn with
  | nil => exact ⟨member, by simp⟩
  | append_singleton earlier last ih =>
    have leaves := removals last (by simp)
    rw [alterAll_snoc, LogEntry.alter, leaves] at member
    obtain ⟨other, before⟩ := Finset.mem_erase.mp member
    obtain ⟨original, stays⟩ := ih (fun entry old => removals entry (by simp [old])) before
    refine ⟨original, fun entry present removes => ?_⟩
    rcases List.mem_append.mp present with old | new
    · exact stays entry old removes
    · rw [List.mem_singleton.mp new] at removes
      exact other removes.2.symm

/-- The peers are the other members. -/
def Mirrors (self : String) (members : Finset String) (peers : List String) : Prop :=
  ∀ addr, addr ∈ peers ↔ addr ≠ self ∧ addr ∈ members

namespace Mirrors

variable {self : String} {members : Finset String} {peers : List String} {entry : LogEntry}

theorem reconfigure (mirrors : Mirrors self members peers) (stays : ¬ entry.Removes self) :
    Mirrors self (entry.alter members) (entry.reconfigure self peers) := by
  intro addr
  have before := mirrors addr
  rw [LogEntry.mem_reconfigure]
  unfold LogEntry.effect? LogEntry.alter
  cases op : entry.configOp with
  | unset => simpa using before
  | add =>
    by_cases added : entry.configPeer = addr ∧ addr ≠ self
    · simp [added]
    · simp only [added, ↓reduceIte, Option.getD_none, decide_eq_true_eq, Finset.mem_insert, before]
      constructor
      · exact fun known => ⟨known.1, .inr known.2⟩
      · rintro ⟨other, rfl | known⟩
        · exact absurd ⟨rfl, other⟩ added
        · exact ⟨other, known⟩
  | remove =>
    have other : entry.configPeer ≠ self := fun same => stays ⟨op, same⟩
    by_cases named : entry.configPeer = addr
    · simp [named]
    · simp [other, named, Ne.symm named, before]

theorem reconfigure_again (mirrors : Mirrors self (entry.alter members) peers)
    (stays : ¬ entry.Removes self) :
    Mirrors self (entry.alter members) (entry.reconfigure self peers) := by
  have twice := mirrors.reconfigure stays
  have same : entry.alter (entry.alter members) = entry.alter members := by
    unfold LogEntry.alter
    cases entry.configOp <;> simp
  rwa [same] at twice

theorem mem_alter (member : self ∈ members) (stays : ¬ entry.Removes self) :
    self ∈ entry.alter members := by
  unfold LogEntry.alter
  cases op : entry.configOp with
  | unset => exact member
  | add => exact Finset.mem_insert_of_mem member
  | remove => exact Finset.mem_erase.mpr ⟨fun same => stays ⟨op, same.symm⟩, member⟩

end Mirrors

theorem LogEntry.mem_alter_of_ne {entry : LogEntry} {members : Finset String} {addr : String}
    (other : addr ≠ entry.configPeer) : addr ∈ entry.alter members ↔ addr ∈ members := by
  unfold alter
  cases entry.configOp <;> simp [other]

/-- The addresses a node takes for the cluster: its own and its peers. -/
def RaftNode.view (node : RaftNode) : Finset String :=
  insert node.config.selfAddr node.peers.toFinset

theorem Mirrors.view {node : RaftNode} {members : Finset String}
    (mirrors : Mirrors node.config.selfAddr members node.peers)
    (member : node.config.selfAddr ∈ members) : node.view = members := by
  ext addr
  simp only [RaftNode.view, Finset.mem_insert, List.mem_toFinset, mirrors addr]
  by_cases same : addr = node.config.selfAddr
  · simp [same, member]
  · simp [same]

theorem RaftNode.card_view_le (node : RaftNode) : node.view.card ≤ node.peers.length + 1 :=
  (Finset.card_insert_le _ _).trans (Nat.succ_le_succ (List.toFinset_card_le _))

end RaftGo.Raft
