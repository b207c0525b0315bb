-- SUMMARY: The numbers under which a connection sends its requests.
import Rtsp.Proofs.Connection.History
import Mathlib.Data.List.Nodup

/-!
# Numbers

Requests are numbered one after the other, also those that cannot be written in the end. So as
long as no more requests are sent than there are numbers, no number is used twice
(`Connection.nodup_sentNumbers`).
-/

namespace Rtsp

/-- The numbers of the requests that were written. -/
def sentNumbers (h : List Occurrence) : List UInt32 :=
  h.filterMap Occurrence.sent?

theorem sentNumbers_append (h h' : List Occurrence) :
    sentNumbers (h ++ h') = sentNumbers h ++ sentNumbers h' :=
  List.filterMap_append

/-- Where no number is used twice, the last one is new. -/
theorem nodup_sentNumbers_concat {h : List Occurrence} {o : Occurrence}
    (hnodup : (sentNumbers (h ++ [o])).Nodup) :
    (sentNumbers h).Nodup ∧ ∀ n ∈ o.sent?, n ∉ sentNumbers h := by
  rw [sentNumbers_append] at hnodup
  obtain ⟨hbefore, -, hdisjoint⟩ := List.nodup_append.1 hnodup
  refine ⟨hbefore, fun n hn hmem => ?_⟩
  exact hdisjoint n hmem n (List.mem_filterMap.2 ⟨o, List.mem_cons_self, hn⟩) rfl

namespace Connection

/-- A request is to be sent. -/
def Action.isRequest : Action → Bool
  | send (.request _) => true
  | _ => false

/-- How many requests are to be sent, whatever becomes of them. -/
def requestSends (actions : List Action) : Nat :=
  actions.countP Action.isRequest

theorem sentNumbers_turn (c : Connection) : sentNumbers c.turn = [] := by
  refine List.filterMap_eq_nil_iff.2 fun o ho => ?_
  cases o with
  | sent n r => exact absurd ho (sent_not_mem_turn c)
  | received unit event | closed => rfl

theorem nextCseq_advance (c : Connection) : c.advance.1.nextCseq = c.nextCseq := by
  rcases advance_cases c with ⟨-, -, h⟩ | ⟨units, rest, -, -, -, -, -, h⟩
    | ⟨units, events, -, -, -, h, -⟩ <;> rw [h] <;> rfl

/-- Only sending a request uses up a number, and that is the number of the request. -/
theorem sentNumbers_step (c : Connection) (action : Action) :
    (sentNumbers (c.occurrences action) = [] ∧ (c.step action).1.nextCseq = c.nextCseq)
      ∨ ((∃ r, action = .send (.request r))
        ∧ (sentNumbers (c.occurrences action)).Sublist [c.nextCseq]
        ∧ (c.step action).1.nextCseq = c.nextCseq + 1) := by
  have hnumbers : sentNumbers (c.occurrences action) = sentNumbers (c.outcome action) := by
    rw [occurrences, sentNumbers_append, sentNumbers_turn, List.append_nil]
  have hnext : (c.step action).1.nextCseq = (c.act action).1.nextCseq := nextCseq_advance _
  rw [hnumbers, hnext]
  cases action with
  | send m =>
    cases m with
    | request r =>
      rcases sendRequest_cases c r with ⟨-, hsend⟩ | ⟨-, hsend⟩ | ⟨-, hsend⟩ <;>
        simp only [act, outcome, hsend]
      · exact .inl ⟨rfl, trivial⟩
      · exact .inr ⟨⟨r, rfl⟩, List.nil_sublist _, trivial⟩
      · exact .inr ⟨⟨r, rfl⟩, List.Sublist.refl _, trivial⟩
    | response r => exact .inl ⟨rfl, congrArg nextCseq (connection_send (by simp))⟩
    | unknown u => exact .inl ⟨rfl, congrArg nextCseq (connection_send (by simp))⟩
  | sendData f => exact .inl ⟨rfl, congrArg nextCseq (connection_sendData c f)⟩
  | start | feed bytes | ignoreEvents =>
    refine .inl ⟨rfl, ?_⟩
    unfold act
    dsimp only
    split <;> rfl
  | finish how | setWritable writable | close => exact .inl ⟨rfl, rfl⟩

/-- The numbers in use are consecutive, with gaps where a request was not written. -/
theorem sentNumbers_history (c : Connection) (actions : List Action) :
    (sentNumbers (c.history actions)).Sublist
      ((List.range (requestSends actions)).map fun i => c.nextCseq + UInt32.ofNat i) := by
  induction actions generalizing c with
  | nil => exact List.nil_sublist _
  | cons action actions ih =>
    have hrest := ih (c.step action).1
    rw [history, sentNumbers_append]
    rcases sentNumbers_step c action with ⟨hnone, hnext⟩ | ⟨⟨r, rfl⟩, hsent, hnext⟩
    · rw [hnone, List.nil_append]
      rw [hnext] at hrest
      refine hrest.trans (List.Sublist.map _ (List.range_sublist.2 ?_))
      rw [requestSends, requestSends, List.countP_cons]
      exact Nat.le_add_right _ _
    · have hshift : (List.range (requestSends (.send (.request r) :: actions))).map
          (fun i => c.nextCseq + UInt32.ofNat i)
            = [c.nextCseq] ++ (List.range (requestSends actions)).map
              (fun i => c.nextCseq + 1 + UInt32.ofNat i) := by
        have hcount : requestSends (.send (.request r) :: actions) = requestSends actions + 1 :=
          List.countP_cons_of_pos rfl
        have hsucc : ∀ i, c.nextCseq + UInt32.ofNat (i + 1)
            = c.nextCseq + 1 + UInt32.ofNat i := by
          intro i
          rw [UInt32.ofNat_add, UInt32.add_assoc, UInt32.add_comm (UInt32.ofNat i)]
          rfl
        rw [hcount, List.range_succ_eq_map, List.map_cons, List.map_map]
        exact congrArg₂ List.cons (UInt32.add_zero _) (List.map_congr_left fun i _ => hsucc i)
      rw [hshift]
      rw [hnext] at hrest
      exact hsent.append hrest

theorem nodup_sentNumbers {c : Connection} {actions : List Action}
    (h : requestSends actions < 2 ^ 32) : (sentNumbers (c.history actions)).Nodup := by
  refine (sentNumbers_history c actions).nodup (List.Nodup.map_on ?_ List.nodup_range)
  intro i hi j hj hij
  rw [List.mem_range] at hi hj
  have hofNat : UInt32.ofNat i = UInt32.ofNat j := UInt32.add_right_inj c.nextCseq |>.1 hij
  have hmod := congrArg UInt32.toNat hofNat
  rwa [UInt32.toNat_ofNat', UInt32.toNat_ofNat', Nat.mod_eq_of_lt (by omega),
    Nat.mod_eq_of_lt (by omega)] at hmod

end Connection
end Rtsp
