import GiantCore.Foundation.Run
import Mathlib.Data.List.Pairwise
import Mathlib.Data.List.Nodup

/-! # Alerts

An alert that is signed by the alert key cancels others by their number. The alert of the largest
number says that the key is compromised; it must cancel all others and never expire. The alerts that
a node keeps never cancel one another (`alerts_settled`). The one of the largest number stays for
as long as no alert cancels that number, and then nothing else is taken
(`final_alert`).
-/

namespace GiantCore

/-- The fields of `CUnsignedAlert` that decide what becomes of an alert. -/
structure UnsignedAlert where
  nExpiration : Int
  nID : Int
  nCancel : Int
  setCancel : List Int
  nMinVer : Int
  nMaxVer : Int
  setSubVer : List String
  nPriority : Int
  strStatusBar : String
  deriving DecidableEq, Repr

namespace UnsignedAlert

/-- `numeric_limits<int>::max()`. -/
def maxInt : Int := 2147483647

/-- `IsInEffect`. -/
def isInEffect (now : Int) (alert : UnsignedAlert) : Bool := decide (now < alert.nExpiration)

/-- The numbers that an alert cancels. -/
def covers (alert : UnsignedAlert) (nID : Int) : Bool :=
  decide (nID ≤ alert.nCancel) || decide (nID ∈ alert.setCancel)

/-- `Cancels`. -/
def cancels (now : Int) (alert other : UnsignedAlert) : Bool :=
  alert.isInEffect now && alert.covers other.nID

/-- What the alert of the largest number must be. -/
def predefined (alert : UnsignedAlert) : Bool :=
  decide (alert.nExpiration = maxInt) && decide (alert.nCancel = maxInt - 1) &&
    decide (alert.nMinVer = 0) && decide (alert.nMaxVer = maxInt) && alert.setSubVer.isEmpty &&
    decide (alert.nPriority = maxInt) &&
    alert.strStatusBar == "URGENT: Alert key compromised, upgrade required"

end UnsignedAlert

/-- A message of an alert. -/
structure AlertMessage where
  vchMsg : List UInt8
  vchSig : List UInt8
  deriving DecidableEq, Repr

section

variable {H : Type} [DecidableEq H] (hash : List UInt8 → H)
  (verify : List UInt8 → List UInt8 → Bool) (unserialize : List UInt8 → Option UnsignedAlert)

open UnsignedAlert

/-- `mapAlerts`. -/
abbrev AlertMap (H : Type) := List (H × UnsignedAlert)

/-- `CheckSignature`, with the alert that it reads. -/
def checkSignature (message : AlertMessage) : Option UnsignedAlert :=
  if verify message.vchMsg message.vchSig then unserialize message.vchMsg else none

/-- The alert of a message that `ProcessAlert` compares with those of the node. -/
def admitted (now : Int) (message : AlertMessage) : Option UnsignedAlert :=
  match checkSignature verify unserialize message with
  | none => none
  | some alert =>
      if !alert.isInEffect now then none
      else if alert.nID = maxInt && !alert.predefined then none
      else some alert

/-- `ProcessAlert`: the alerts of the node afterwards, and whether the alert was taken. -/
def processAlert (now : Int) (mapAlerts : AlertMap H) (message : AlertMessage) :
    AlertMap H × Bool :=
  match admitted verify unserialize now message with
  | none => (mapAlerts, false)
  | some alert =>
      let kept := mapAlerts.filter fun item =>
        !alert.cancels now item.2 && item.2.isInEffect now
      if kept.any fun item => item.2.cancels now alert then (kept, false)
      else if (hash message.vchMsg) ∈ kept.map Prod.fst then (kept, true)
      else ((hash message.vchMsg, alert) :: kept, true)

/-- A step of a node: an alert is processed at some time. -/
def alertStep (mapAlerts : AlertMap H) (arrival : Int × AlertMessage) : AlertMap H :=
  (processAlert hash verify unserialize arrival.1 mapAlerts arrival.2).1

/-- **The invariant.** No alert cancels another, each is under the hash of a message that was
signed, and the largest number is that of the predefined alert. -/
structure Settled (mapAlerts : AlertMap H) : Prop where
  apart : mapAlerts.Pairwise fun item item' =>
    item.2.covers item'.2.nID = false ∧ item'.2.covers item.2.nID = false
  keys : (mapAlerts.map Prod.fst).Nodup
  signed : ∀ item ∈ mapAlerts, ∃ message, checkSignature verify unserialize message = some item.2 ∧
    hash message.vchMsg = item.1 ∧ (item.2.nID = maxInt → item.2.predefined = true)

variable {hash verify unserialize}

theorem admitted_eq_some {now : Int} {message : AlertMessage} {alert : UnsignedAlert}
    (admits : admitted verify unserialize now message = some alert) :
    checkSignature verify unserialize message = some alert ∧ alert.isInEffect now = true ∧
      (alert.nID = maxInt → alert.predefined = true) := by
  rw [admitted] at admits
  split at admits
  · cases admits
  · rename_i signed
    split at admits
    · cases admits
    · rename_i effect
      split at admits
      · cases admits
      · rename_i last
        cases admits
        refine ⟨signed, by simpa using effect, fun largest => ?_⟩
        simpa [largest] using last

/-- What `ProcessAlert` can come to. -/
theorem processAlert_cases (now : Int) (mapAlerts : AlertMap H) (message : AlertMessage) :
    (admitted verify unserialize now message = none ∧
      processAlert hash verify unserialize now mapAlerts message = (mapAlerts, false)) ∨
    ∃ alert, admitted verify unserialize now message = some alert ∧
      let kept := mapAlerts.filter fun item =>
        !alert.cancels now item.2 && item.2.isInEffect now
      (∃ item ∈ kept, item.2.cancels now alert = true) ∧
          processAlert hash verify unserialize now mapAlerts message = (kept, false) ∨
        (∀ item ∈ kept, item.2.cancels now alert = false) ∧
          (hash message.vchMsg ∈ kept.map Prod.fst ∧
              processAlert hash verify unserialize now mapAlerts message = (kept, true) ∨
            hash message.vchMsg ∉ kept.map Prod.fst ∧
              processAlert hash verify unserialize now mapAlerts message =
                ((hash message.vchMsg, alert) :: kept, true)) := by
  rw [processAlert]
  cases admits : admitted verify unserialize now message with
  | none => exact .inl ⟨rfl, rfl⟩
  | some alert =>
      refine .inr ⟨alert, rfl, ?_⟩
      dsimp only
      split
      · rename_i cancelled
        exact .inl ⟨List.any_eq_true.mp cancelled, rfl⟩
      · rename_i allowed
        refine .inr ⟨fun item mem => ?_, ?_⟩
        · exact Bool.eq_false_iff.mpr fun yes => allowed (List.any_eq_true.mpr ⟨item, mem, yes⟩)
        · split
          · rename_i known
            exact .inl ⟨known, rfl⟩
          · rename_i new
            exact .inr ⟨new, rfl⟩

omit [DecidableEq H] in
/-- Those that an alert leaves are in effect, and it does not cancel them. -/
theorem of_mem_kept {now : Int} {alert : UnsignedAlert} (effect : alert.isInEffect now = true)
    {mapAlerts : AlertMap H} {item : H × UnsignedAlert}
    (mem : item ∈ mapAlerts.filter fun item =>
      !alert.cancels now item.2 && item.2.isInEffect now) :
    item ∈ mapAlerts ∧ alert.covers item.2.nID = false ∧ item.2.isInEffect now = true := by
  obtain ⟨inside, stays⟩ := List.mem_filter.mp mem
  rw [Bool.and_eq_true, Bool.not_eq_true', cancels, effect, Bool.true_and] at stays
  exact ⟨inside, stays⟩

omit [DecidableEq H] in
theorem Settled.filter {mapAlerts : AlertMap H}
    (settled : Settled hash verify unserialize mapAlerts) (stays : H × UnsignedAlert → Bool) :
    Settled hash verify unserialize (mapAlerts.filter stays) where
  apart := settled.apart.filter stays
  keys := settled.keys.sublist (List.filter_sublist.map Prod.fst)
  signed item mem := settled.signed item (List.mem_of_mem_filter mem)

/-- **Every alert leaves the others settled.** -/
theorem Settled.step {mapAlerts : AlertMap H} (settled : Settled hash verify unserialize mapAlerts)
    (arrival : Int × AlertMessage) :
    Settled hash verify unserialize (alertStep hash verify unserialize mapAlerts arrival) := by
  obtain ⟨now, message⟩ := arrival
  rw [alertStep]
  rcases processAlert_cases now mapAlerts message with
    ⟨-, same⟩ | ⟨alert, admits, ⟨-, same⟩ | ⟨allowed, ⟨-, same⟩ | ⟨new, same⟩⟩⟩ <;> rw [same]
  · exact settled
  · exact settled.filter _
  · exact settled.filter _
  · obtain ⟨signed, effect, last⟩ := admitted_eq_some admits
    have kept := settled.filter fun item => !alert.cancels now item.2 && item.2.isInEffect now
    refine ⟨List.pairwise_cons.mpr ⟨fun item mem => ?_, kept.apart⟩,
      List.nodup_cons.mpr ⟨new, kept.keys⟩, fun item mem => ?_⟩
    · obtain ⟨-, uncovered, effect'⟩ := of_mem_kept effect mem
      have allowed' := allowed item mem
      rw [cancels, effect', Bool.true_and] at allowed'
      exact ⟨uncovered, allowed'⟩
    · rcases List.mem_cons.mp mem with rfl | old
      · exact ⟨message, signed, rfl, last⟩
      · exact kept.signed item old

/-- **The alerts of a node are settled** after whatever alerts at whatever times. -/
theorem alerts_settled (arrivals : List (Int × AlertMessage)) :
    ∀ mapAlerts ∈ Foundation.Run.states (alertStep hash verify unserialize) [] arrivals,
      Settled hash verify unserialize mapAlerts :=
  Foundation.Run.invariant (fun _ arrival settled => settled.step arrival)
    ⟨.nil, List.nodup_nil, nofun⟩ arrivals

/-! ## The largest number -/

variable {final : H × UnsignedAlert}

omit [DecidableEq H] in
/-- The alert of the largest number is left by those that do not cancel that number. -/
theorem final_mem_kept_iff (largest : final.2.nID = maxInt) (fixed : final.2.predefined = true)
    {now : Int} (early : now < maxInt) {alert : UnsignedAlert}
    (effect : alert.isInEffect now = true) {mapAlerts : AlertMap H} (mem : final ∈ mapAlerts) :
    (final ∈ mapAlerts.filter fun item =>
      !alert.cancels now item.2 && item.2.isInEffect now) ↔ alert.covers maxInt = false := by
  have expires : final.2.nExpiration = maxInt := by
    simp only [predefined, Bool.and_eq_true, decide_eq_true_eq] at fixed
    exact fixed.1.1.1.1.1.1
  have stays : final.2.isInEffect now = true := by
    rw [isInEffect, expires]
    exact decide_eq_true early
  rw [List.mem_filter, Bool.and_eq_true, Bool.not_eq_true', cancels, effect, Bool.true_and,
    largest, stays]
  exact ⟨fun kept => kept.2.1, fun free => ⟨mem, free, rfl⟩⟩

/-- The condition on an arrival: its alert does not cancel the largest number. -/
def Spares (verify : List UInt8 → List UInt8 → Bool)
    (unserialize : List UInt8 → Option UnsignedAlert) (arrival : Int × AlertMessage) : Prop :=
  ∀ alert, admitted verify unserialize arrival.1 arrival.2 = some alert →
    alert.covers maxInt = false

/-- One alert: that of the largest number stays if and only if it is spared. -/
theorem final_mem_step_iff (largest : final.2.nID = maxInt) (fixed : final.2.predefined = true)
    (itself : final.2.covers maxInt = false) {mapAlerts : AlertMap H}
    {arrival : Int × AlertMessage} (early : arrival.1 < maxInt) (mem : final ∈ mapAlerts) :
    final ∈ alertStep hash verify unserialize mapAlerts arrival ↔
      Spares verify unserialize arrival := by
  obtain ⟨now, message⟩ := arrival
  rw [alertStep]
  rcases processAlert_cases now mapAlerts message with
    ⟨none_, same⟩ | ⟨alert, admits, outcome⟩
  · rw [same]
    refine ⟨fun _ alert admits => ?_, fun _ => mem⟩
    cases none_.symm.trans admits
  · obtain ⟨-, effect, -⟩ := admitted_eq_some admits
    have kept := final_mem_kept_iff largest fixed early effect mem
    have spares : Spares verify unserialize (now, message) ↔ alert.covers maxInt = false := by
      refine ⟨fun spared => spared alert admits, fun spared other admits' => ?_⟩
      cases admits.symm.trans admits'
      exact spared
    rw [spares]
    rcases outcome with ⟨-, same⟩ | ⟨-, ⟨-, same⟩ | ⟨-, same⟩⟩ <;> rw [same]
    · exact kept
    · exact kept
    · refine List.mem_cons.trans ⟨fun where_ => ?_, fun spared => .inr (kept.mpr spared)⟩
      rcases where_ with new | old
      · rw [new] at itself
        exact itself
      · exact kept.mp old

/-- **The alert of the largest number.** It stays in a run if and only if no alert that is admitted
cancels that number, the alert of another number included; where it is, an alert of a smaller number
that spares it is not taken. -/
theorem final_alert (largest : final.2.nID = maxInt) (fixed : final.2.predefined = true)
    (itself : final.2.covers maxInt = false) {start : AlertMap H} (first : final ∈ start)
    {arrivals : List (Int × AlertMessage)} (early : ∀ arrival ∈ arrivals, arrival.1 < maxInt) :
    ((∀ mapAlerts ∈ Foundation.Run.states (alertStep hash verify unserialize) start arrivals,
        final ∈ mapAlerts) ↔
      Foundation.Run.AllSteps (alertStep hash verify unserialize)
        (fun _ arrival => Spares verify unserialize arrival) start arrivals) ∧
    ∀ mapAlerts, final ∈ mapAlerts → ∀ now < maxInt, ∀ message alert,
      admitted verify unserialize now message = some alert → alert.covers maxInt = false →
        alert.nID < maxInt →
          (processAlert hash verify unserialize now mapAlerts message).2 = false := by
  constructor
  · exact @Foundation.Run.forall_states_iff _ _ _ (fun _ => True)
      (fun mapAlerts => final ∈ mapAlerts) (fun arrival => arrival.1 < maxInt) _
      (fun _ _ _ => trivial)
      (fun mapAlerts arrival early _ mem => final_mem_step_iff largest fixed itself early mem)
      start trivial first arrivals early
  · intro mapAlerts mem now before message alert admits spared smaller
    obtain ⟨-, effect, -⟩ := admitted_eq_some admits
    have kept := (final_mem_kept_iff largest fixed before effect mem).mpr spared
    have cancelled : final.2.cancels now alert = true := by
      have stays := (List.mem_filter.mp kept).2
      have cancel : final.2.nCancel = maxInt - 1 := by
        simp only [predefined, Bool.and_eq_true, decide_eq_true_eq] at fixed
        exact fixed.1.1.1.1.1.2
      rw [Bool.and_eq_true] at stays
      rw [cancels, stays.2, Bool.true_and, covers, cancel, Bool.or_eq_true]
      exact .inl (decide_eq_true (by omega))
    rcases processAlert_cases now mapAlerts message with
      ⟨none_, same⟩ | ⟨other, admits', ⟨-, same⟩ | ⟨allowed, -⟩⟩
    · rw [same]
    · rw [same]
    · cases admits.symm.trans admits'
      cases cancelled.symm.trans (allowed final kept)

end

/-- An alert of the largest number. -/
def compromised : UnsignedAlert where
  nExpiration := UnsignedAlert.maxInt
  nID := UnsignedAlert.maxInt
  nCancel := UnsignedAlert.maxInt - 1
  setCancel := []
  nMinVer := 0
  nMaxVer := UnsignedAlert.maxInt
  setSubVer := []
  nPriority := UnsignedAlert.maxInt
  strStatusBar := "URGENT: Alert key compromised, upgrade required"

theorem alerts_settled_one :
    Settled id (fun _ _ => true) (fun _ => some compromised)
      (alertStep id (fun _ _ => true) (fun _ => some compromised) [] (5, ⟨[2], []⟩)) :=
  alerts_settled [(5, ⟨[2], []⟩)] _ (.tail _ (.head _))

theorem final_alert_cancelled :
    let unserialize : List UInt8 → Option UnsignedAlert := fun _ =>
      some { compromised with nID := 7, nCancel := UnsignedAlert.maxInt }
    ¬ ∀ mapAlerts ∈ Foundation.Run.states (alertStep id (fun _ _ => true) unserialize)
      [([1], compromised)] [(5, ⟨[2], []⟩)], ([1], compromised) ∈ mapAlerts := by
  intro unserialize stays
  have exact_ := (@final_alert (List UInt8) _ id (fun _ _ => true) unserialize ([1], compromised)
    rfl (by decide) (by decide) [([1], compromised)] List.mem_cons_self [(5, ⟨[2], []⟩)]
    (by decide)).1
  have covered := (exact_.mp stays).1 _ rfl
  exact absurd covered (by decide)

end GiantCore
