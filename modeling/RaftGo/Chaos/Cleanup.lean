import RaftGo.Chaos.Injector
import RaftGo.Library.Lists
import RaftGo.Library.System

/-! Sequences of injections and clean-ups. The number at the end of a rule ID is handed out
once, so a clean-up function finds the rules of its own injection and no others. -/

namespace RaftGo.Chaos

open Library

/-- The number of a rule ID can be read off it. -/
theorem eq_of_ruleID_eq {stem stem' : String} {number number' : Nat}
    (same : ruleID stem number = ruleID stem' number') : number = number' := by
  have lists : stem.toList ++ '-' :: Nat.toDigits 10 number =
      stem'.toList ++ '-' :: Nat.toDigits 10 number' := by
    simpa [ruleID, Nat.toString_eq_repr] using congrArg String.toList same
  have digits (n : Nat) : '-' ∉ Nat.toDigits 10 n := fun member =>
    absurd (Nat.isDigit_of_mem_toDigits (by decide) (by decide) member) (by decide)
  have parsed := congrArg (Nat.ofDigitChars 10 · 0)
    (eq_of_append_separator lists (digits number) (digits number'))
  simpa using parsed

/-- What a test does with an injector. `cleanUp k` calls the function that injection `k`
returned, counted from 0. -/
inductive Call where
  | partitionNode (nodeID : String)
  | partitionAsymmetric (src dst : String)
  | injectPacketLoss (src dst : String) (prob : ℚ)
  | injectDelay (src dst : String) (d : Int)
  | healAll
  | cleanUp (injection : Nat)
deriving DecidableEq

namespace Call

def injects : Call → Bool
  | .healAll | .cleanUp _ => false
  | _ => true

/-- The call is the end of an injection: `HealAll` or its own clean-up. -/
def ends (injection : Nat) : Call → Bool
  | .healAll => true
  | .cleanUp other => other == injection
  | _ => false

/-- The rules an injection installs when `number` IDs have been handed out before. -/
def rules (number : Nat) : Call → List Rule
  | .partitionNode nodeID => partitionRules nodeID number
  | .partitionAsymmetric src dst => [{ id := ruleID "part-asym" (number + 1), src, dst }]
  | .injectPacketLoss src dst prob =>
    [{ id := ruleID "loss" (number + 1), src, dst, act := .loss, prob }]
  | .injectDelay src dst d => [{ id := ruleID "delay" (number + 1), src, dst, act := .delay, d }]
  | .healAll | .cleanUp _ => []

theorem ends_of_injects {call : Call} (injects : call.injects = true) (injection : Nat) :
    call.ends injection = false := by
  cases call with
  | healAll => cases injects
  | cleanUp other => cases injects
  | _ => rfl

theorem numbered {call : Call} {number : Nat} {rule : Rule} (member : rule ∈ call.rules number) :
    ∃ stem count, rule.id = ruleID stem count ∧ number < count ∧
      count ≤ number + (call.rules number).length := by
  cases call with
  | partitionNode nodeID =>
    rcases List.mem_pair.mp member with rfl | rfl
    · exact ⟨_, number + 1, rfl, by simp [rules, partitionRules]⟩
    · exact ⟨_, number + 2, rfl, by simp [rules, partitionRules]⟩
  | healAll => cases member
  | cleanUp injection => cases member
  | _ =>
    cases List.mem_singleton.mp member
    exact ⟨_, number + 1, rfl, by simp [rules]⟩

end Call

/-- An injector and the functions it has returned. -/
structure Session where
  injector : ChaosInjector := {}
  cleanups : List Cleanup := []
deriving DecidableEq

namespace Session

variable (session : Session)

def keep (result : ChaosInjector × Cleanup) : Session :=
  { injector := result.1, cleanups := session.cleanups ++ [result.2] }

def step : Call → Option Session
  | .partitionNode nodeID => some (session.keep (session.injector.partitionNode nodeID))
  | .partitionAsymmetric src dst =>
    some (session.keep (session.injector.partitionAsymmetric src dst))
  | .injectPacketLoss src dst prob =>
    some (session.keep (session.injector.injectPacketLoss src dst prob))
  | .injectDelay src dst d => some (session.keep (session.injector.injectDelay src dst d))
  | .healAll => some { session with injector := session.injector.healAll }
  | .cleanUp injection => session.cleanups[injection]?.map fun ids =>
      { session with injector := session.injector.cleanUp ids }

def system : System Session Call where
  step := step

/-- An injection as a whole: its rules go behind the others, under IDs not used before, and
their IDs are what it returns. -/
theorem step_of_injects {call : Call} (injects : call.injects = true) :
    session.step call = some {
      injector := {
        net := { rules := session.injector.net.rules ++ call.rules session.injector.rseq }
        rseq := session.injector.rseq + (call.rules session.injector.rseq).length }
      cleanups := session.cleanups ++ [(call.rules session.injector.rseq).map (·.id)] } := by
  cases call with
  | partitionNode nodeID =>
    rw [step, partitionNode_eq]
    rfl
  | healAll => cases injects
  | cleanUp injection => cases injects
  | _ => rfl

end Session

/-- The rules that are due after some moves of a run, each with the number of its injection:
those of every injection that has not ended since. `count` is the number of injections
before the moves. -/
def standing (count : Nat) : List (Move Session Call) → List (Nat × Rule)
  | [] => []
  | move :: later =>
    if move.event.injects then
      (if later.any (·.event.ends count) then []
        else (move.event.rules move.before.injector.rseq).map (count, ·)) ++
        standing (count + 1) later
    else standing count later

theorem standing_snoc (count : Nat) (moves : List (Move Session Call)) (move : Move Session Call) :
    standing count (moves ++ [move]) =
      (standing count moves).filter (fun item => !move.event.ends item.1) ++
        (if move.event.injects then (move.event.rules move.before.injector.rseq).map
          (count + moves.countP (·.event.injects), ·) else []) := by
  induction moves generalizing count with
  | nil => simp [standing]
  | cons first later ih =>
    rw [List.cons_append, standing, standing, List.countP_cons]
    split
    · rename_i injects
      have numbers : count + 1 + later.countP (·.event.injects) =
          count + (later.countP (·.event.injects) + 1) := by omega
      rw [ih, List.filter_append, List.append_assoc, numbers]
      congr 1
      -- the injection ends with the further call, or earlier, or not at all
      by_cases ended : later.any (·.event.ends count) = true
      · simp [ended]
      · cases last : move.event.ends count with
        | true => simp [ended, last]
        | false =>
          have kept : ∀ item ∈ (first.event.rules first.before.injector.rseq).map (count, ·),
              (!move.event.ends item.1) = true := by simp [last]
          simp [ended, last, List.filter_eq_self.mpr kept]
    · rename_i other
      simp [ih]

/-- The books of a session: every rule installed belongs to an injection that stands, every
injection has its clean-up function, and no two functions share an ID. -/
structure Session.Books (moves : List (Move Session Call)) (session : Session) : Prop where
  installed : session.injector.net.rules = (standing 0 moves).map Prod.snd
  returned : session.cleanups.length = moves.countP (·.event.injects)
  owned : ∀ injection rule, (injection, rule) ∈ standing 0 moves →
    ∃ ids, session.cleanups[injection]? = some ids ∧ rule.id ∈ ids
  numbered : ∀ ids ∈ session.cleanups, ∀ id ∈ ids,
    ∃ stem number, id = ruleID stem number ∧ number ≤ session.injector.rseq
  apart : ∀ (i j : Nat) (ids others : Cleanup) (id : String), session.cleanups[i]? = some ids →
    session.cleanups[j]? = some others → id ∈ ids → id ∈ others → i = j

namespace Session.Books

variable {moves : List (Move Session Call)} {session next : Session}

theorem start : Books [] {} where
  installed := rfl
  returned := rfl
  owned := by simp [standing]
  numbered := by simp
  apart := by simp

theorem healAll (books : Books moves session) :
    Books (moves ++ [⟨session, .healAll, next⟩])
      { session with injector := session.injector.healAll } where
  installed := by
    rw [standing_snoc]
    simp [Call.ends, Call.injects, ChaosInjector.healAll, ChaosNetwork.clearRules]
  returned := by simpa [Call.injects] using books.returned
  owned := by
    rw [standing_snoc]
    simp [Call.ends, Call.injects]
  numbered := books.numbered
  apart := books.apart

theorem cleanUp (books : Books moves session) {injection : Nat} {ids : Cleanup}
    (found : session.cleanups[injection]? = some ids) :
    Books (moves ++ [⟨session, .cleanUp injection, next⟩])
      { session with injector := session.injector.cleanUp ids } := by
  have own (item : Nat × Rule) (member : item ∈ standing 0 moves) :
      item.2.id ∉ ids ↔ injection ≠ item.1 := by
    obtain ⟨others, place, listed⟩ := books.owned item.1 item.2 member
    constructor
    · rintro unlisted rfl
      exact unlisted (Option.some.inj (found.symm.trans place) ▸ listed)
    · exact fun other shared => other (books.apart _ _ _ _ _ found place shared listed)
  have rest : standing 0 (moves ++ [⟨session, .cleanUp injection, next⟩]) =
      (standing 0 moves).filter (injection != ·.1) := by
    rw [standing_snoc]
    simp [Call.ends, Call.injects, bne]
  refine ⟨?_, ?_, ?_, ?_, books.apart⟩
  · rw [rest, ChaosInjector.cleanUp_eq, books.installed, List.filter_map]
    refine congrArg (List.map Prod.snd) (List.filter_congr fun item member => ?_)
    rw [Bool.eq_iff_iff]
    simpa using own item member
  · simpa [Call.injects] using books.returned
  · intro owner rule member
    rw [rest] at member
    exact books.owned owner rule (List.mem_of_mem_filter member)
  · rw [ChaosInjector.cleanUp_eq]
    exact books.numbered

theorem fresh (books : Books moves session) {call : Call} {rule : Rule}
    (member : rule ∈ call.rules session.injector.rseq) {ids : Cleanup}
    (returned : ids ∈ session.cleanups) : rule.id ∉ ids := by
  intro used
  obtain ⟨stem, number, named, above, _⟩ := Call.numbered member
  obtain ⟨stem', number', named', below⟩ := books.numbered ids returned rule.id used
  have same := eq_of_ruleID_eq (named.symm.trans named')
  omega

theorem inject (books : Books moves session) {call : Call} (injects : call.injects = true) :
    Books (moves ++ [⟨session, call, next⟩]) {
      injector := {
        net := { rules := session.injector.net.rules ++ call.rules session.injector.rseq }
        rseq := session.injector.rseq + (call.rules session.injector.rseq).length }
      cleanups := session.cleanups ++ [(call.rules session.injector.rseq).map (·.id)] } := by
  have kept : ∀ item ∈ standing 0 moves, (!call.ends item.1) = true := by
    simp [Call.ends_of_injects injects]
  have due : standing 0 (moves ++ [⟨session, call, next⟩]) =
      standing 0 moves ++ (call.rules session.injector.rseq).map (session.cleanups.length, ·) := by
    rw [standing_snoc, List.filter_eq_self.mpr kept, books.returned, Nat.zero_add]
    simp [injects]
  constructor
  · rw [due, books.installed]
    simp
  · simp [books.returned, injects]
  · intro injection rule member
    rw [due] at member
    rcases List.mem_append.mp member with old | new
    · obtain ⟨ids, place, listed⟩ := books.owned injection rule old
      exact ⟨ids, List.getElem?_append_left (List.getElem?_eq_some_iff.mp place).1 ▸ place, listed⟩
    · obtain ⟨_, fresh, same⟩ := List.mem_map.mp new
      cases same
      exact ⟨_, List.getElem?_concat_length .., List.mem_map_of_mem fresh⟩
  · intro ids returned id listed
    rcases List.mem_append.mp returned with old | new
    · obtain ⟨stem, number, named, bound⟩ := books.numbered ids old id listed
      exact ⟨stem, number, named, bound.trans (Nat.le_add_right _ _)⟩
    · rw [List.mem_singleton.mp new] at listed
      obtain ⟨rule, member, rfl⟩ := List.mem_map.mp listed
      obtain ⟨stem, number, named, _, bound⟩ := Call.numbered member
      exact ⟨stem, number, named, bound⟩
  · intro i j ids others id place place' listed listed'
    rcases getElem?_snoc_cases place with old | ⟨last, rfl⟩
    · rcases getElem?_snoc_cases place' with old' | ⟨_, rfl⟩
      · exact books.apart i j ids others id old old' listed listed'
      · obtain ⟨rule, member, rfl⟩ := List.mem_map.mp listed'
        exact absurd listed (books.fresh member (List.mem_of_getElem? old))
    · rcases getElem?_snoc_cases place' with old' | ⟨last', rfl⟩
      · obtain ⟨rule, member, rfl⟩ := List.mem_map.mp listed
        exact absurd listed' (books.fresh member (List.mem_of_getElem? old'))
      · exact last.trans last'.symm

theorem step (books : Books moves session) {call : Call}
    (taken : Session.step session call = some next) :
    Books (moves ++ [⟨session, call, next⟩]) next := by
  by_cases injects : call.injects = true
  · rw [step_of_injects session injects] at taken
    cases taken
    exact books.inject injects
  · cases call with
    | healAll =>
      cases taken
      exact books.healAll
    | cleanUp injection =>
      obtain ⟨ids, found, rfl⟩ := Option.map_eq_some_iff.mp taken
      exact books.cleanUp found
    | _ => exact absurd rfl injects

end Session.Books

/-- Clean-up is exact: after every sequence of injections, `HealAll`s and calls of clean-up
functions the rules installed are those of the injections that have not ended. -/
theorem rules_eq_standing {moves : List (Move Session Call)} {session : Session}
    (trace : Session.system.Trace (fun _ _ => True) {} moves session) :
    session.injector.net.rules = (standing 0 moves).map Prod.snd :=
  (trace.record Session.Books .start fun _ _ _ _ books _ taken => books.step taken).installed

/-- Three injections, a `HealAll`, a fourth one, and clean-ups of the second, the fourth and
again the fourth. -/
theorem rules_eq_standing_mixed : ∃ moves session,
    Session.system.Trace (fun _ _ => True) {} moves session ∧
      session.injector.net.rules = (standing 0 moves).map Prod.snd ∧
      session.injector.net.rules = [{ id := "part-asym-6", src := "node1", dst := "node2" }] := by
  obtain ⟨moves, session, trace, ends⟩ := Session.system.exists_trace (fun _ _ => True) {}
    [.partitionNode "node1", .injectDelay "" "node2" 5, .injectPacketLoss "node3" "" (1 / 2),
      .healAll, .injectDelay "" "" 7, .partitionAsymmetric "node1" "node2", .cleanUp 1, .cleanUp 3,
      .cleanUp 3]
    (fun _ session => session.injector.net.rules =
      [{ id := "part-asym-6", src := "node1", dst := "node2" }])
    (by decide +kernel)
  exact ⟨moves, session, trace, rules_eq_standing trace, of_decide_eq_true ends⟩

end RaftGo.Chaos
