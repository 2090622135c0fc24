import Mathlib.Data.Countable.Basic
import Mathlib.Data.Finmap
import Mathlib.Logic.Equiv.Multiset
import Mathlib.Tactic.DeriveCountable
import RaftGo.Raft.Log

/-! The key-value state machine (`kvstore/kvstore.go`): its operations, their
encoding and what they do to the map. -/

namespace RaftGo.KvStore

open Raft (Bytes LogEntry)

inductive OpType where
  | set
  | get
  | del
  | other (name : String)
deriving DecidableEq, Repr

def OpType.text : OpType → String
  | .set => "SET"
  | .get => "GET"
  | .del => "DEL"
  | .other name => name

structure Op where
  type : OpType
  key : String
  value : String := ""
deriving DecidableEq, Repr

inductive KvError where
  | notLeader
  | keyNotFound
  | timeout
  | decode (text : String)
  | unknownOp (type : OpType)
deriving DecidableEq, Repr

def KvError.message : KvError → String
  | .notLeader => "kvstore: not the leader"
  | .keyNotFound => "kvstore: key not found"
  | .timeout => "kvstore: timed out waiting for commit"
  | .decode text => text
  | .unknownOp type => "unknown op: " ++ type.text

structure ApplyResult where
  value : String := ""
  err : Option KvError := none
deriving DecidableEq, Repr

abbrev Data := Finmap fun _ : String => String

/-- The `gob` encoding of operations and of the map. Decoding what was encoded
gives it back; arbitrary bytes may fail to decode. -/
structure Codec where
  encodeOp : Op → Bytes
  decodeOp : Bytes → Except String Op
  encodeData : Data → Bytes
  decodeData : Bytes → Option Data
  decodeOp_encodeOp : ∀ op, decodeOp (encodeOp op) = .ok op
  decodeData_encodeData : ∀ data, decodeData (encodeData data) = some data

variable (codec : Codec)

def get (data : Data) (key : String) : Except KvError String :=
  match data.lookup key with
  | some value => .ok value
  | none => .error .keyNotFound

def Op.execute (op : Op) (data : Data) : Data × ApplyResult :=
  match op.type with
  | .set => (data.insert op.key op.value, {})
  | .del => (data.erase op.key, {})
  | _ => (data, { err := some (.unknownOp op.type) })

/-- `KVStore.Apply`. -/
def apply (data : Data) (command : Bytes) : Data × ApplyResult :=
  match codec.decodeOp command with
  | .error text => (data, { err := some (.decode text) })
  | .ok op => op.execute data

/-- `KVStore.Restore`; its error is ignored by every caller. -/
def restore (data : Data) (snapshot : Bytes) : Data :=
  (codec.decodeData snapshot).getD data

/-- The map after the entries of a log, of which membership changes are not
passed to the state machine. -/
def replay (entries : List LogEntry) : Data :=
  (entries.filter (!·.isConfig)).foldl (fun data entry => (apply codec data entry.command).1) ∅

@[simp] theorem apply_encodeOp (data : Data) (op : Op) :
    apply codec data (codec.encodeOp op) = op.execute data := by
  simp [apply, codec.decodeOp_encodeOp]

@[simp] theorem restore_encodeData (data snapshot : Data) :
    restore codec data (codec.encodeData snapshot) = snapshot := by
  simp [restore, codec.decodeData_encodeData]

theorem replay_snoc (entries : List LogEntry) (entry : LogEntry) :
    replay codec (entries ++ [entry]) =
      if entry.isConfig then replay codec entries
      else (apply codec (replay codec entries) entry.command).1 := by
  unfold replay
  rw [List.filter_append, List.foldl_append]
  cases kind : entry.isConfig <;> simp [kind]

/-! Operations and maps can be encoded at all: there are only countably many. -/

section Countable

instance countableChar : Countable Char :=
  Function.Injective.countable (f := Char.toNat) fun _ _ => Char.toNat_inj.mp

instance countableString : Countable String :=
  Function.Injective.countable (f := String.toList) fun _ _ => String.toList_inj.mp

deriving instance Countable for OpType

deriving instance Countable for Op

instance : Countable Data :=
  Function.Injective.countable (f := Finmap.entries) fun _ _ => Finmap.ext

/-- The number of a value, in unary. -/
noncomputable def unary {α : Type} [Countable α] (value : α) : Bytes :=
  List.replicate ((exists_injective_nat α).choose value) 0

noncomputable def ofUnary {α : Type} [Countable α] (bytes : Bytes) : Option α :=
  Function.partialInv (exists_injective_nat α).choose bytes.length

theorem ofUnary_unary {α : Type} [Countable α] (value : α) : ofUnary (unary value) = some value := by
  rw [ofUnary, unary, List.length_replicate]
  exact Function.partialInv_left (exists_injective_nat α).choose_spec value

noncomputable def Codec.unary : Codec where
  encodeOp := KvStore.unary
  decodeOp bytes := match ofUnary bytes with
    | some op => .ok op
    | none => .error "unexpected EOF"
  encodeData := KvStore.unary
  decodeData := ofUnary
  decodeOp_encodeOp op := by rw [ofUnary_unary]
  decodeData_encodeData := ofUnary_unary

/-- Keep the empty byte string for one operation, so that runs of that operation
can be computed. -/
def Codec.reserve (codec : Codec) (op : Op) : Codec where
  encodeOp other := if other = op then [] else 0 :: codec.encodeOp other
  decodeOp
    | [] => .ok op
    | _ :: bytes => codec.decodeOp bytes
  encodeData := codec.encodeData
  decodeData := codec.decodeData
  decodeOp_encodeOp other := by
    by_cases same : other = op
    · simp [same]
    · simp [same, codec.decodeOp_encodeOp]
  decodeData_encodeData := codec.decodeData_encodeData

/-- The same for one map. -/
def Codec.reserveData (codec : Codec) (data : Data) : Codec where
  encodeOp := codec.encodeOp
  decodeOp := codec.decodeOp
  encodeData other := if other = data then [] else 0 :: codec.encodeData other
  decodeData
    | [] => some data
    | _ :: bytes => codec.decodeData bytes
  decodeOp_encodeOp := codec.decodeOp_encodeOp
  decodeData_encodeData other := by
    by_cases same : other = data
    · simp [same]
    · simp [same, codec.decodeData_encodeData]

/-- `Set("x", "1")`. -/
def setOp : Op where
  type := .set
  key := "x"
  value := "1"

/-- `Delete("x")`. -/
def deleteOp : Op where
  type := .del
  key := "x"

/-- A codec that computes both operations and the map the first one leaves. -/
noncomputable def Codec.sample : Codec :=
  ((Codec.unary.reserve deleteOp).reserve setOp).reserveData (setOp.execute ∅).1

theorem Codec.encodeData_sample {data : Data} (other : data ≠ (setOp.execute ∅).1) :
    Codec.sample.encodeData data ≠ [] := by
  simp [sample, reserveData, other]

end Countable

end RaftGo.KvStore
