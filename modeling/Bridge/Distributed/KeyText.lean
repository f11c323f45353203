import Bridge.Distributed.Failover
import Bridge.Lib.Utf16

/-!
# Task ids, and the keys made of them

The keys of `Distributed.Data` are what Redis sees. A task id comes from the body of `POST /tasks`,
as any string of JavaScript, and meets a key in three places: `submitTask` puts it after `task:`,
the claim script puts what came out of the queue after `task:claim:`, and `handleNodeFailover` takes
the third piece of a claim key to be the id again.
-/

namespace Bridge.Distributed

open Lib Utf16 List

/-- The key of the record that `submitTask` writes. -/
def recordKey (x : Units) : String := wire (ofString "task:" ++ x)

def scriptClaimKey (y : Units) : String := claimKey (wire y)

/-- `claimKey.split(':')[2]`, on the string the client makes of the key. -/
def recoveredId (key : String) : Option Units := ((ofString key).splitOn 0x3A)[2]?

theorem recordKey_eq (x : Units) : recordKey x = taskKey (wire x) := by
  rw [recordKey, wire, ofString, decode_encode_append, String.ofList_append, String.ofList_toList]
  rfl

theorem splitOn_claimKey (t : TaskId) :
    (claimKey t).toList.splitOn ':' = "task".toList :: "claim".toList :: t.toList.splitOn ':' := by
  rw [claimKey_toList]
  show ("task".toList ++ ':' :: ("claim".toList ++ ':' :: t.toList)).splitOn ':' = _
  rw [splitOn_append_cons_self_of_not_mem (by decide),
    splitOn_append_cons_self_of_not_mem (by decide)]

theorem recoveredId_claimKey (t : TaskId) :
    recoveredId (claimKey t) = ((t.toList.splitOn ':')[0]?).map encode := by
  have hcolon : (0x3A : UInt16) = ':'.toNat.toUInt16 := rfl
  rw [recoveredId, ofString, hcolon, splitOn_encode (by decide), splitOn_claimKey]
  rw [map_cons, map_cons, getElem?_cons_succ, getElem?_cons_succ, getElem?_map]

theorem toList_wire_encode (l : List Char) : (wire (encode l)).toList = l := by
  rw [wire, decode_encode, String.toList_ofList]

theorem colon_mem_encode {l : List Char} : (0x3A : UInt16) ∈ encode l ↔ ':' ∈ l := by
  have hcolon : (0x3A : UInt16) = ':'.toNat.toUInt16 := rfl
  rw [hcolon, mem_encode (by decide)]

theorem not_mem_of_splitOn_head {l : List Char} (h : (l.splitOn ':')[0]? = some l) : ':' ∉ l := by
  intro hmem
  obtain ⟨before, after, heq, hbefore⟩ := eq_append_cons_of_mem hmem
  rw [heq, splitOn_append_cons_self_of_not_mem hbefore] at h
  have hlen := congrArg length (Option.some.inj h)
  simp at hlen

/-- **The keys are unambiguous exactly for well-formed ids without a colon, other than `queue`.** -/
theorem keys_unambiguous_iff (x : Units) :
    (recordKey x ≠ queueKey ∧ (∀ y, recordKey x ≠ scriptClaimKey y) ∧
      recoveredId (scriptClaimKey x) = some x) ↔
    (x ≠ ofString "queue" ∧ 0x3A ∉ x ∧ WellFormed x) := by
  rw [recordKey_eq, scriptClaimKey, recoveredId_claimKey]
  constructor
  · rintro ⟨hqueue, -, hrecovered⟩
    refine ⟨?_, ?_⟩
    · rintro rfl
      exact hqueue (by rw [taskKey_eq_queueKey, wire, ofString, decode_encode,
        String.ofList_toList])
    · obtain ⟨piece, hpiece, rfl⟩ := Option.map_eq_some_iff.mp hrecovered
      rw [toList_wire_encode] at hpiece
      rw [colon_mem_encode]
      exact ⟨not_mem_of_splitOn_head hpiece, piece, rfl⟩
  · rintro ⟨hqueue, hcol, piece, rfl⟩
    rw [colon_mem_encode] at hcol
    have hwire := toList_wire_encode piece
    refine ⟨?_, ?_, ?_⟩
    · rw [ne_eq, taskKey_eq_queueKey]
      intro h
      rw [h] at hwire
      exact hqueue (congrArg encode hwire.symm)
    · intro y
      rw [ne_eq, scriptClaimKey, taskKey_eq_claimKey]
      exact ne_claim_of_plain (hwire.symm ▸ hcol) _
    · rw [hwire, splitOn_eq_singleton hcol]
      rfl

theorem keys_ambiguous : recordKey (ofString "queue") = queueKey ∧
    recordKey (ofString "claim:y") = scriptClaimKey (ofString "y") ∧
    recoveredId (scriptClaimKey (ofString "a:b")) = some (ofString "a") ∧
    recoveredId (scriptClaimKey [0xD800]) = some [0xFFFD] := by
  refine ⟨by decide, by decide, by decide +kernel, by decide +kernel⟩

end Bridge.Distributed
