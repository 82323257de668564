import NearField.Proofs.Command.Words

/-! # Bounds of what is read

Whatever a line says, the points of a command that is read from it are numbered below the number of
points, and its records are no more than a command can carry.
-/
namespace NearField

namespace Llcp

def Sap.InRange : Sap → Prop
  | last => True
  | value point => point.toNat < pointCount

def Saps.InRange (s : Saps) : Prop := s.destination.InRange ∧ s.source.InRange

def Points.InRange (p : Points) : Prop :=
  p.destination.toNat < pointCount ∧ p.source.toNat < pointCount

theorem Sap.orUsed_inRange {s : Sap} {used : UInt8} (hs : s.InRange)
    (hused : used.toNat < pointCount) : (s.orUsed used).toNat < pointCount := by
  cases s with
  | last => exact hused
  | value point => exact hs

theorem Saps.orUsed_inRange {s : Saps} {used : Points} (hs : s.InRange) (hused : used.InRange) :
    (s.orUsed used).InRange :=
  ⟨Sap.orUsed_inRange hs.1 hused.1, Sap.orUsed_inRange hs.2 hused.2⟩

theorem Points.ne_zero_of_checkConnectable {p : Points} (h : p.checkConnectable = .ok ()) :
    p.destination ≠ 0 ∧ p.source ≠ 0 := by
  unfold checkConnectable at h
  by_cases hd : p.destination = linkManagement
  · simp [hd] at h
  · by_cases hs : p.source = linkManagement
    · simp [hd, hs] at h
    · exact ⟨hd, hs⟩

end Llcp

namespace Command
open Llcp

def InRange : Command → Prop
  | send saps records => saps.InRange ∧ records ≠ [] ∧ records.length ≤ Ndef.maxRecords
  | receive saps | connect saps => saps.InRange
  | setTag _ records => records.length ≤ Ndef.maxRecords
  | notify _ | clearTag _ | formatTag _ => True

namespace Reader
variable {α β : Type}

/-- Whatever input it reads, a reader that succeeds has read something with the property. -/
def Ensures (r : Reader α) (p : α → Prop) : Prop := ∀ s a s', r.run s = .ok a s' → p a

namespace Ensures
variable {p : α → Prop} {q : β → Prop}

theorem of_true (r : Reader α) : r.Ensures fun _ => True := fun _ _ _ _ => trivial

theorem pure {a : α} (h : p a) : Ensures (pure a) p := by
  intro s a' s' hr
  cases hr
  exact h

theorem fail (e : Error) : Ensures (throw e : Reader α) p := by
  intro s a s' hr
  cases hr

theorem bind {r : Reader α} {f : α → Reader β} (hr : r.Ensures p)
    (hf : ∀ a, p a → (f a).Ensures q) : (r >>= f).Ensures q := by
  intro s b s' hrun
  rw [EStateM.run_bind] at hrun
  cases hfirst : r.run s with
  | ok a t =>
    rw [hfirst] at hrun
    exact hf a (hr s a t hfirst) t b s' hrun
  | error e t =>
    rw [hfirst] at hrun
    cases hrun

theorem fail_bind (e : Error) (f : α → Reader β) : Ensures (throw e >>= f) q := by
  intro s b s' hr
  cases hr

theorem ite {c : Prop} [Decidable c] {r r' : Reader α} (hr : c → r.Ensures p)
    (hr' : ¬ c → r'.Ensures p) : Ensures (if c then r else r') p := by
  split
  · next hc => exact hr hc
  · next hc => exact hr' hc

end Ensures

theorem sap_inRange (field : Text) (allowLast : Bool) :
    (sap field allowLast).Ensures Sap.InRange := by
  refine .bind (.of_true _) fun value _ => .ite (fun _ => .pure trivial) fun _ => ?_
  refine .ite (fun h => .pure ?_) fun _ => .fail _
  have hlt : value.toNat < 64 := (Int.toNat_lt h.1).mpr h.2
  change (UInt8.ofNat value.toNat).toNat < 64
  rwa [UInt8.toNat_ofNat_of_lt' (Nat.lt_trans hlt (by decide))]

theorem saps_inRange : saps.Ensures Saps.InRange :=
  .bind (sap_inRange _ _) fun _ hd => .bind (sap_inRange _ _) fun _ hs => .pure ⟨hd, hs⟩

theorem putArguments_inRange : putArguments.Ensures fun p => p.saps.InRange :=
  .bind saps_inRange fun _ hsaps => .bind (.of_true _) fun _ _ => .pure hsaps

theorem snep_inRange : snep.Ensures Command.InRange := by
  refine .bind (.of_true _) fun word _ => .ite (fun _ => ?_) fun _ => .fail_bind _ _
  refine .bind putArguments_inRange fun p hsaps => .pure ?_
  cases hempty : p.records.records.isEmpty with
  | true => exact hsaps
  | false => exact ⟨hsaps, List.isEmpty_eq_false_iff.mp hempty, p.records.bounded⟩

theorem nci_inRange (c : Emulator.Controller) : (nci c).Ensures Command.InRange :=
  .bind (.of_true _) fun _ _ => .bind (.of_true _) fun _ _ => .pure trivial

theorem llcp_inRange : llcp.Ensures Command.InRange := by
  refine .bind (.of_true _) fun word _ => ?_
  have hconnect : (do return connect (← saps) : Reader Command).Ensures Command.InRange :=
    .bind saps_inRange fun _ hsaps => .pure hsaps
  exact .ite (fun _ => hconnect) fun _ => .fail_bind _ _

theorem tag_inRange (c : Emulator.Controller) : (tag c).Ensures Command.InRange := by
  refine .bind (.of_true _) fun word _ => .ite (fun _ => ?_) fun _ => .ite (fun _ => ?_) fun _ =>
    .ite (fun _ => ?_) fun _ => .fail _
  · refine .bind (.of_true _) fun place _ => ?_
    have hset : (do return setTag place (← records).records : Reader Command).Ensures
        Command.InRange := .bind (.of_true _) fun l _ => .pure l.bounded
    cases c.tagAt place with
    | error e => exact .fail_bind _ _
    | ok => exact hset
  · exact .bind (.of_true _) fun _ _ => .pure trivial
  · exact .bind (.of_true _) fun _ _ => .pure trivial

theorem reader_inRange (family : Family) (c : Emulator.Controller) :
    (family.reader c).Ensures Command.InRange := by
  cases family with
  | snep => exact snep_inRange
  | nci => exact nci_inRange c
  | llcp => exact llcp_inRange
  | tag => exact tag_inRange c

end Reader

theorem ofLine_inRange {c : Emulator.Controller} {line : Text} {command : Command}
    (h : ofLine c line = .ok command) : command.InRange := by
  obtain ⟨family, input, s, -, hrun⟩ := ofLine_eq_ok h
  exact Reader.reader_inRange family c input command s hrun

end Command
end NearField
