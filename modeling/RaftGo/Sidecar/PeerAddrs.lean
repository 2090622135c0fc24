import RaftGo.Library.Text
import RaftGo.Raft.Node

/-! `PEER_HTTP_ADDRS`, which the sidecar writes for a new node (`cmd/sidecar/main.go`) and the
node binary reads back (`cmd/kvstore/main.go`) to know where to redirect a write. -/

namespace RaftGo.Sidecar

open Library Raft

structure NodeDef where
  id : String
  httpPort : Int
deriving DecidableEq, Repr

/-- The nodes of `docker-compose.yml`. -/
def presetNodes : List NodeDef :=
  [⟨"node1", 8081⟩, ⟨"node2", 8082⟩, ⟨"node3", 8083⟩, ⟨"node4", 8084⟩, ⟨"node5", 8085⟩]

def httpAddr (port : Int) : String := "localhost:" ++ toString port

/-- `fmt.Sprintf("%s=localhost:%d", id, port)`. -/
def addrPair (id : String) (port : Int) : String := id ++ "=" ++ httpAddr port

/-- What the loop over the registry has written and which IDs it has met. -/
structure Listing where
  parts : List String := []
  seen : Table Bool := fun _ => none

def Listing.add (listing : Listing) (node : NodeDef) : Listing where
  parts := listing.parts ++ [addrPair node.id node.httpPort]
  seen := listing.seen.set node.id true

/-- The registry is the copy that `allNodes` takes. -/
def buildPeerHTTPAddrs (all : List NodeDef) (newID : String) (newHTTPPort : Int) : String :=
  let listing := all.foldl Listing.add {}
  let parts :=
    if !(listing.seen newID).getD false then listing.parts ++ [addrPair newID newHTTPPort]
    else listing.parts
  String.intercalate "," parts

def splitNonEmpty (text separator : String) : List String :=
  if text = "" then [] else split text separator

/-- The body of the loop of `parsePeerHTTPAddrs`: a pair without `=` is skipped. -/
def readPair (addrs : Table String) (pair : String) : Table String :=
  match splitN pair "=" 2 with
  | [key, value] => addrs.set (trimSpace key) (trimSpace value)
  | _ => addrs

def parsePeerHTTPAddrs (raw : String) : Table String :=
  (splitNonEmpty raw ",").foldl readPair fun _ => none

/-- An ID that passes through the string: Docker allows no other in a container name. -/
structure PlainID (id : String) : Prop where
  comma : ',' ∉ id.toList
  equals : '=' ∉ id.toList
  trimmed : Trimmed id

/-- What the sidecar keeps of its nodes, each under an ID of its own. -/
structure Registry where
  nodes : List NodeDef
  distinct : (nodes.map NodeDef.id).Nodup
  plain : ∀ node ∈ nodes, PlainID node.id

namespace Registry

variable (registry : Registry) {newID : String}

theorem distinct_append (fresh : newID ∉ registry.nodes.map NodeDef.id) (newHTTPPort : Int) :
    ((registry.nodes ++ [NodeDef.mk newID newHTTPPort]).map NodeDef.id).Nodup := by
  rw [List.map_append, List.map_singleton, List.nodup_append]
  refine ⟨registry.distinct, List.pairwise_singleton _ _, ?_⟩
  rintro id member other last rfl
  obtain rfl : id = newID := List.mem_singleton.mp last
  exact fresh member

theorem plain_append (plain : PlainID newID) (newHTTPPort : Int) :
    ∀ node ∈ registry.nodes ++ [NodeDef.mk newID newHTTPPort], PlainID node.id := by
  intro node member
  rcases List.mem_append.mp member with earlier | last
  · exact registry.plain node earlier
  · exact List.mem_singleton.mp last ▸ plain

/-- The nodes of the string: the new one stands last, unless its ID is registered. -/
def announce (plain : PlainID newID) (newHTTPPort : Int) : Registry :=
  if registered : newID ∈ registry.nodes.map NodeDef.id then registry else
  ⟨registry.nodes ++ [⟨newID, newHTTPPort⟩], registry.distinct_append registered newHTTPPort,
    registry.plain_append plain newHTTPPort⟩

theorem mem_announce {plain : PlainID newID} {newHTTPPort : Int} {node : NodeDef} :
    node ∈ (registry.announce plain newHTTPPort).nodes ↔
      node ∈ registry.nodes ∨
        newID ∉ registry.nodes.map NodeDef.id ∧ node = ⟨newID, newHTTPPort⟩ := by
  unfold announce
  by_cases registered : newID ∈ registry.nodes.map NodeDef.id
  · rw [dif_pos registered]
    exact ⟨.inl, fun either => either.resolve_right fun fresh => fresh.1 registered⟩
  · rw [dif_neg registered]
    simp only [List.mem_append, List.mem_singleton, registered, not_false_eq_true, true_and]

def pairs : List String := registry.nodes.map fun node => addrPair node.id node.httpPort

end Registry

section Writing

theorem Listing.parts_foldl (all : List NodeDef) (listing : Listing) :
    (all.foldl Listing.add listing).parts =
      listing.parts ++ all.map fun node => addrPair node.id node.httpPort := by
  induction all generalizing listing with
  | nil => exact (List.append_nil _).symm
  | cons node rest ih =>
    rw [List.foldl_cons, ih, Listing.add, List.map_cons, List.append_assoc, List.singleton_append]

theorem Listing.seen_foldl (all : List NodeDef) (listing : Listing) (id : String) :
    (all.foldl Listing.add listing).seen id =
      if id ∈ all.map NodeDef.id then some true else listing.seen id := by
  induction all generalizing listing with
  | nil => simp
  | cons node rest ih =>
    have here : (listing.add node).seen id = if id = node.id then some true else listing.seen id :=
      Function.update_apply ..
    rw [List.foldl_cons, ih, here, List.map_cons]
    by_cases later : id ∈ rest.map NodeDef.id
    · rw [if_pos later, if_pos (List.mem_cons_of_mem _ later)]
    · simp only [List.mem_cons, later, or_false, if_false]

theorem buildPeerHTTPAddrs_eq (registry : Registry) {newID : String} (plain : PlainID newID)
    (newHTTPPort : Int) :
    buildPeerHTTPAddrs registry.nodes newID newHTTPPort =
      String.intercalate "," (registry.announce plain newHTTPPort).pairs := by
  dsimp only [buildPeerHTTPAddrs]
  rw [Listing.seen_foldl, Listing.parts_foldl, List.nil_append, Registry.pairs, Registry.announce]
  by_cases registered : newID ∈ registry.nodes.map NodeDef.id
  · rw [if_pos registered, dif_pos registered]
    rfl
  · rw [if_neg registered, dif_neg registered, List.map_append]
    rfl

end Writing

section Reading

variable {id : String}

/-- A port is written without white space and without a comma. -/
theorem mem_httpAddr {port : Int} {char : Char} (member : char ∈ (httpAddr port).toList) :
    isSpace char = false ∧ char ≠ ',' := by
  rw [httpAddr, String.toList_append, List.mem_append] at member
  rcases member with host | number
  · have clean : "localhost:".toList.all (fun char => !isSpace char && char != ',') = true := rfl
    simpa using List.all_eq_true.mp clean char host
  · rcases isDigit_of_mem_toString number with digit | rfl
    · refine ⟨isSpace_of_isDigit digit, ?_⟩
      rintro rfl
      exact absurd digit (by decide)
    · decide

theorem comma_notMem_addrPair (plain : PlainID id) (port : Int) :
    ',' ∉ (addrPair id port).toList := by
  rw [addrPair, String.toList_append, String.toList_append, List.mem_append, List.mem_append]
  rintro ((inside | sign) | host)
  · exact plain.comma inside
  · exact absurd sign (by decide)
  · exact (mem_httpAddr host).2 rfl

theorem addrPair_ne_empty (port : Int) : addrPair id port ≠ "" := by
  intro empty
  have blank := congrArg String.toList empty
  simp [addrPair] at blank

theorem readPair_addrPair (plain : PlainID id) (port : Int) (addrs : Table String) :
    readPair addrs (addrPair id port) = addrs.set id (httpAddr port) := by
  have host : Trimmed (httpAddr port) := trimmed_of_forall fun _ member => (mem_httpAddr member).1
  rw [readPair, addrPair, splitN_two (show "=".toList = ['='] from rfl) plain.equals]
  simp only [trimSpace_of_trimmed plain.trimmed, trimSpace_of_trimmed host]

theorem splitNonEmpty_intercalate {parts : List String} (filled : ∀ part ∈ parts, part ≠ "")
    (free : ∀ part ∈ parts, ',' ∉ part.toList) :
    splitNonEmpty (String.intercalate "," parts) "," = parts := by
  by_cases empty : parts = []
  · subst empty
    rfl
  · have undone := split_intercalate (show ",".toList = [','] from rfl) empty free
    have written : String.intercalate "," parts ≠ "" := by
      intro blank
      rw [blank, show split "" "," = [""] from rfl] at undone
      exact filled "" (undone ▸ List.mem_singleton_self _) rfl
    rw [splitNonEmpty, if_neg written, undone]

/-- The map of a registry, entered node by node. -/
def enter (addrs : Table String) (node : NodeDef) : Table String :=
  addrs.set node.id (httpAddr node.httpPort)

theorem parse_pairs (registry : Registry) :
    parsePeerHTTPAddrs (String.intercalate "," registry.pairs) =
      registry.nodes.foldl enter fun _ => none := by
  have parts : ∀ part ∈ registry.pairs, part ≠ "" ∧ ',' ∉ part.toList := by
    intro part member
    obtain ⟨node, registered, rfl⟩ := List.mem_map.mp member
    exact ⟨addrPair_ne_empty _, comma_notMem_addrPair (registry.plain node registered) _⟩
  rw [parsePeerHTTPAddrs, splitNonEmpty_intercalate (fun part member => (parts part member).1)
    fun part member => (parts part member).2, Registry.pairs, List.foldl_map]
  refine List.foldl_ext _ _ _ fun addrs node registered => ?_
  exact readPair_addrPair (registry.plain node registered) _ addrs

theorem foldl_enter_of_notMem {nodes : List NodeDef} (absent : id ∉ nodes.map NodeDef.id)
    (addrs : Table String) : nodes.foldl enter addrs id = addrs id := by
  induction nodes generalizing addrs with
  | nil => rfl
  | cons node rest ih =>
    rw [List.map_cons, List.mem_cons, not_or] at absent
    rw [List.foldl_cons, ih absent.2, enter, Table.set, Function.update_of_ne absent.1]

theorem foldl_enter_of_mem {nodes : List NodeDef} (distinct : (nodes.map NodeDef.id).Nodup)
    {node : NodeDef} (member : node ∈ nodes) (addrs : Table String) :
    nodes.foldl enter addrs node.id = some (httpAddr node.httpPort) := by
  induction nodes generalizing addrs with
  | nil => cases member
  | cons first rest ih =>
    rw [List.map_cons, List.nodup_cons] at distinct
    rcases List.mem_cons.mp member with rfl | later
    · rw [List.foldl_cons, foldl_enter_of_notMem distinct.1, enter, Table.set,
        Function.update_self]
    · exact ih distinct.2 later _

/-- The string of a registry is read as the map of that registry. -/
theorem parse_pairs_of_mem (registry : Registry) {node : NodeDef} (member : node ∈ registry.nodes) :
    parsePeerHTTPAddrs (String.intercalate "," registry.pairs) node.id =
      some (httpAddr node.httpPort) := by
  rw [parse_pairs]
  exact foldl_enter_of_mem registry.distinct member _

theorem parse_pairs_of_notMem (registry : Registry) (absent : id ∉ registry.nodes.map NodeDef.id) :
    parsePeerHTTPAddrs (String.intercalate "," registry.pairs) id = none := by
  rw [parse_pairs]
  exact foldl_enter_of_notMem absent _

end Reading

/-- The node binary reads every registered node and the new one at the port the
sidecar wrote for it, and reads no other node. -/
theorem peer_http_addrs_round_trip (registry : Registry) {newID : String} (plain : PlainID newID)
    (newHTTPPort : Int) :
    let addrs := parsePeerHTTPAddrs (buildPeerHTTPAddrs registry.nodes newID newHTTPPort)
    (∀ node ∈ registry.nodes, addrs node.id = some (httpAddr node.httpPort)) ∧
      (newID ∉ registry.nodes.map NodeDef.id → addrs newID = some (httpAddr newHTTPPort)) ∧
      ∀ id, id ∉ registry.nodes.map NodeDef.id → id ≠ newID → addrs id = none := by
  dsimp only
  rw [buildPeerHTTPAddrs_eq registry plain]
  refine ⟨fun node member => ?_, fun fresh => ?_, fun id absent other => ?_⟩
  · exact parse_pairs_of_mem _ (registry.mem_announce.mpr (.inl member))
  · exact parse_pairs_of_mem _ (registry.mem_announce.mpr (.inr ⟨fresh, rfl⟩))
  · refine parse_pairs_of_notMem _ fun listed => ?_
    obtain ⟨node, member, rfl⟩ := List.mem_map.mp listed
    rcases registry.mem_announce.mp member with registered | ⟨fresh, rfl⟩
    · exact absent (List.mem_map_of_mem registered)
    · exact other rfl

theorem presetNodes_plain : ∀ node ∈ presetNodes, PlainID node.id := by
  have checked : ∀ node ∈ presetNodes,
      ',' ∉ node.id.toList ∧ '=' ∉ node.id.toList ∧ Trimmed node.id := by decide
  intro node member
  obtain ⟨comma, equals, trimmed⟩ := checked node member
  exact ⟨comma, equals, trimmed⟩

theorem presetNodes_distinct : (presetNodes.map NodeDef.id).Nodup := by decide

/-- The registry the sidecar starts with. -/
def presetRegistry : Registry := ⟨presetNodes, presetNodes_distinct, presetNodes_plain⟩

theorem peer_http_addrs_round_trip_presets :
    let addrs := parsePeerHTTPAddrs (buildPeerHTTPAddrs presetNodes "node6" 8086)
    addrs "node2" = some "localhost:8082" ∧ addrs "node6" = some "localhost:8086" ∧
      addrs "node7" = none := by
  have plain : PlainID "node6" := ⟨by decide, by decide, by decide⟩
  obtain ⟨registered, fresh, others⟩ := peer_http_addrs_round_trip presetRegistry plain 8086
  exact ⟨registered ⟨"node2", 8082⟩ (by decide), fresh (by decide),
    others "node7" (by decide) (by decide)⟩

end RaftGo.Sidecar
