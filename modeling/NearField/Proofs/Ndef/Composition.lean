import NearField.Proofs.Ndef.ReportText
import NearField.Proofs.Ndef.Spans

/-! # Composition of messages

What stands behind a message that reads to its end is read as if it stood alone. So a message that
is cut between two records is read as the records in front of the cut, and one that is cut inside a
record breaks off there: nothing of a record is read before the whole of it is there.
-/
namespace NearField.Ndef

/-- With fewer bytes than it has, a record is not read, nor is another one in its place. -/
theorem RawRecord.split_of_short {v : RawRecord} (hv : v.Intact) {n : Nat}
    (hn : n < v.bytes.length) :
    ∃ needed, n < needed ∧ split (v.bytes.take n) = .error (.messageTruncated n needed) := by
  have hlength : (v.bytes.take n).length = n := by
    rw [List.length_take]
    omega
  cases hsplit : split (v.bytes.take n) with
  | error e =>
    obtain ⟨needed, hneeded, rfl⟩ := split_eq_error hsplit
    rw [hlength] at hneeded ⊢
    exact ⟨needed, hneeded, rfl⟩
  | ok found =>
    obtain ⟨w, rest⟩ := found
    obtain ⟨hw, hfront⟩ := split_eq_ok hsplit
    -- what is read off the front would be read off the whole record as well
    have hwhole : v.bytes ++ [] = w.bytes ++ (rest ++ v.bytes.drop n) := by
      rw [← List.append_assoc, ← hfront, List.take_append_drop, List.append_nil]
    have hread := split_bytes hv []
    rw [hwhole, split_bytes hw] at hread
    obtain ⟨-, hbehind⟩ := Prod.mk.inj (Except.ok.inj hread)
    have hnil := (List.append_eq_nil_iff.mp hbehind).2
    rw [List.drop_eq_nil_iff] at hnil
    omega

namespace Message
variable {views : List RawRecord}

theorem ofRecords_append (front behind : List RawRecord) :
    ofRecords (front ++ behind) = ofRecords front ++ ofRecords behind := by
  simp [ofRecords]

theorem items_ofRecords_append (hviews : ∀ v ∈ views, v.Intact) (rest : Bytes) :
    items (ofRecords views ++ rest) = views.map .ok ++ items rest := by
  induction views with
  | nil => rfl
  | cons v behind ih =>
    obtain ⟨hv, hbehind⟩ := List.forall_mem_cons.mp hviews
    have hsplit := RawRecord.split_bytes hv (ofRecords behind ++ rest)
    have hne : v.bytes ++ (ofRecords behind ++ rest) ≠ [] :=
      List.append_ne_nil_of_left_ne_nil v.bytes_ne_nil _
    rw [ofRecords_cons, List.append_assoc, items_of_split_ok hne hsplit, ih hbehind,
      List.map_cons, List.cons_append]

/-- Where the first `k` records of a message end. -/
def boundary : List RawRecord → Nat → Nat
  | v :: rest, k + 1 => v.header.recordSize + boundary rest k
  | _, _ => 0

theorem boundary_cons_succ (v : RawRecord) (rest : List RawRecord) (k : Nat) :
    boundary (v :: rest) (k + 1) = v.header.recordSize + boundary rest k := rfl

theorem boundary_eq (hviews : ∀ v ∈ views, v.Intact) (k : Nat) :
    boundary views k = (ofRecords (views.take k)).length := by
  induction views generalizing k with
  | nil => simp [boundary, ofRecords]
  | cons v rest ih =>
    obtain ⟨hv, hrest⟩ := List.forall_mem_cons.mp hviews
    cases k with
    | zero => rfl
    | succ k =>
      rw [boundary_cons_succ, ih hrest, List.take_succ_cons, ofRecords_cons, List.length_append,
        RawRecord.length_bytes hv]

theorem exists_boundary {c : Nat} (hc : c ≤ boundary views views.length) :
    (∃ k ≤ views.length, c = boundary views k) ∨
      ∃ k < views.length, boundary views k < c ∧ c < boundary views (k + 1) := by
  induction views generalizing c with
  | nil => exact .inl ⟨0, Nat.le_refl 0, Nat.le_zero.mp hc⟩
  | cons v rest ih =>
    by_cases hzero : c = 0
    · exact .inl ⟨0, Nat.zero_le _, hzero⟩
    by_cases hfirst : c < v.header.recordSize
    · refine .inr ⟨0, by simp, Nat.pos_of_ne_zero hzero, ?_⟩
      rw [boundary_cons_succ]
      exact Nat.lt_add_right _ hfirst
    rw [List.length_cons, boundary_cons_succ] at hc
    rcases @ih (c - v.header.recordSize) (by omega) with ⟨k, hk, hcut⟩ | ⟨k, hk, hlow, hhigh⟩
    · refine .inl ⟨k + 1, Nat.succ_le_succ hk, ?_⟩
      rw [boundary_cons_succ]
      omega
    · refine .inr ⟨k + 1, Nat.succ_lt_succ hk, ?_, ?_⟩
      · rw [boundary_cons_succ]
        omega
      · rw [boundary_cons_succ]
        omega

theorem take_boundary (hviews : ∀ v ∈ views, v.Intact) (k : Nat) :
    (ofRecords views).take (boundary views k) = ofRecords (views.take k) := by
  have hsplit := ofRecords_append (views.take k) (views.drop k)
  rw [List.take_append_drop] at hsplit
  rw [hsplit, boundary_eq hviews, List.take_left]

theorem items_take_boundary (hviews : ∀ v ∈ views, v.Intact) (k : Nat) :
    items ((ofRecords views).take (boundary views k)) = (views.take k).map .ok := by
  rw [take_boundary hviews, items_eq_ok_iff]
  exact ⟨fun v hv => hviews v (List.mem_of_mem_take hv), rfl⟩

theorem items_take_inside (hviews : ∀ v ∈ views, v.Intact) {c k : Nat} (hk : k < views.length)
    (hlow : boundary views k < c) (hhigh : c < boundary views (k + 1)) :
    ∃ needed, c - boundary views k < needed ∧ items ((ofRecords views).take c) =
      (views.take k).map .ok ++ [.error (.messageTruncated (c - boundary views k) needed)] := by
  have hv : views[k].Intact := hviews _ (List.getElem_mem hk)
  have hfront : ∀ v ∈ views.take k, v.Intact := fun v hv => hviews v (List.mem_of_mem_take hv)
  have hsucc : boundary views (k + 1) = boundary views k + views[k].bytes.length := by
    rw [boundary_eq hviews, boundary_eq hviews, List.take_succ_eq_append_getElem hk,
      ofRecords_append, List.length_append, ofRecords_cons]
    simp [ofRecords]
  obtain ⟨needed, hneeded, hsplit⟩ :=
    RawRecord.split_of_short hv (n := c - boundary views k) (by omega)
  refine ⟨needed, hneeded, ?_⟩
  have htake : (ofRecords views).take c =
      ofRecords (views.take k) ++ views[k].bytes.take (c - boundary views k) := by
    have hparts : ofRecords views =
        ofRecords (views.take k) ++ (views[k].bytes ++ ofRecords (views.drop (k + 1))) := by
      rw [← ofRecords_cons, ← ofRecords_append, ← List.drop_eq_getElem_cons hk,
        List.take_append_drop]
    rw [hparts, List.take_append, ← boundary_eq hviews, List.take_append_of_le_length (by omega),
      List.take_of_length_le]
    rw [← boundary_eq hviews]
    omega
  have hne : views[k].bytes.take (c - boundary views k) ≠ [] := by
    rw [← List.length_pos_iff, List.length_take]
    omega
  rw [htake, items_ofRecords_append hfront, items_of_split_error hne hsplit]

end Message

/-- Among the messages that read to their end, just those with short payloads are reported. -/
theorem Report.result_eq_ok_iff {message : Bytes} {views : List RawRecord}
    (h : items message = views.map .ok) :
    (ofMessage message).result = .ok () ↔ ∀ v ∈ views, v.payload.length ≤ maxPayload := by
  constructor
  · intro hresult v hv
    by_contra hlong
    obtain ⟨w, -, -, herror⟩ := ofMessage_of_long h ⟨v, hv, Nat.not_le.mp hlong⟩
    rw [hresult] at herror
    cases herror
  · exact fun hshort => (ofMessage_of_short h hshort).1

namespace Message

/-- Whatever follows a message that reads to its end, its own records are read first. Cut at the end
of a record it is read as the records before the cut, and reported if all of it is. Cut anywhere
else it is read as the records that end before the cut and then breaks off, with as many bytes left
as follow the last of these records, and nothing of it is reported. -/
theorem items_composed {message : Bytes} {views : List RawRecord}
    (h : items message = views.map .ok) :
    (∀ rest, items (message ++ rest) = items message ++ items rest) ∧
    ∀ c ≤ message.length,
      (∀ k ≤ views.length, c = boundary views k →
        items (message.take c) = (views.take k).map .ok ∧
        ((Report.ofMessage message).result = .ok () →
          (Report.ofMessage (message.take c)).result = .ok ())) ∧
      ((∀ k ≤ views.length, c ≠ boundary views k) →
        ∃ k < views.length, boundary views k < c ∧ c < boundary views (k + 1) ∧
          ∃ needed, c - boundary views k < needed ∧
            items (message.take c) = (views.take k).map .ok ++
              [.error (.messageTruncated (c - boundary views k) needed)] ∧
            Report.ofMessage (message.take c) =
              ⟨[], .error (.messageTruncated (c - boundary views k) needed)⟩) := by
  obtain ⟨hviews, rfl⟩ := items_eq_ok_iff.mp h
  refine ⟨fun rest => by rw [items_ofRecords_append hviews, h], fun c hc => ⟨?_, ?_⟩⟩
  · rintro k - rfl
    have hread := items_take_boundary hviews k
    refine ⟨hread, fun hresult => ?_⟩
    have hshort := (Report.result_eq_ok_iff h).mp hresult
    exact (Report.result_eq_ok_iff hread).mpr fun v hv => hshort v (List.mem_of_mem_take hv)
  · intro hapart
    have hend : c ≤ boundary views views.length := by
      rwa [boundary_eq hviews, List.take_length]
    rcases exists_boundary hend with ⟨k, hk, hcut⟩ | ⟨k, hk, hlow, hhigh⟩
    · exact absurd hcut (hapart k hk)
    · obtain ⟨needed, hneeded, hread⟩ := items_take_inside hviews hk hlow hhigh
      refine ⟨k, hk, hlow, hhigh, needed, hneeded, hread, ?_⟩
      rw [Report.ofMessage, readAll_of_truncated hread]

/-- Two records, cut between them and inside the header of the second. -/
theorem items_composed_two :
    let message : Bytes := [0x91, 1, 2, 0x54, 0x68, 0x69, 0x59, 1, 1, 1, 0x55, 0x78, 0x21]
    let v : RawRecord := ⟨⟨0x91, 1, 0, 2⟩, [0x54], [], [0x68, 0x69]⟩
    let w : RawRecord := ⟨⟨0x59, 1, 1, 1⟩, [0x55], [0x78], [0x21]⟩
    items message = [v, w].map .ok ∧ items (message ++ message) = [v, w, v, w].map .ok ∧
      items (message.take 6) = [v].map .ok ∧
      (Report.ofMessage (message.take 6)).result = .ok () ∧
      ∃ needed, items (message.take 8) = [.ok v, .error (.messageTruncated 2 needed)] ∧
        Report.ofMessage (message.take 8) = ⟨[], .error (.messageTruncated 2 needed)⟩ := by
  intro message v w
  have hread : items message = [v, w].map .ok := items_eq_ok_iff.mpr
    ⟨by simpa using ⟨⟨⟨by decide, by decide, by decide⟩, rfl, rfl, rfl⟩,
      ⟨by decide, by decide, by decide⟩, rfl, rfl, rfl⟩, by decide⟩
  have hreported := (Report.result_eq_ok_iff hread).mpr (by decide)
  obtain ⟨hbehind, hcut⟩ := items_composed hread
  obtain ⟨hfirst, hresult⟩ := (hcut 6 (by decide)).1 1 (by decide) (by decide)
  obtain ⟨k, hk, hlow, hhigh, needed, -, hitems, hreport⟩ := (hcut 8 (by decide)).2 (by decide)
  obtain rfl : k = 1 := by
    have hall : ∀ k < 2, boundary [v, w] k < 8 → 8 < boundary [v, w] (k + 1) → k = 1 := by decide
    exact hall k hk hlow hhigh
  have hend : boundary [v, w] 1 = 6 := by decide
  rw [hend] at hitems hreport
  refine ⟨hread, ?_, hfirst, hresult hreported, needed, hitems, hreport⟩
  rw [hbehind, hread]
  rfl

end Message
end NearField.Ndef
