import ProjectHub.Hub.Opening
import ProjectHub.Proofs.Edge.Delivery
import ProjectHub.Proofs.Edge.Folder
import ProjectHub.Proofs.Sqlite.Likeness

/-!
# Sinks on the machine of a hub

Records in memory and in a remote store do not touch the host of the hub. Records in a
folder do, and only there: in the folder, and on the way to it. What a record holds makes
no difference to any database.
-/

namespace ProjectHub

open FileSystem (Grows IsOnWay IsIn)
open Sqlite (View)

/-! ## Requests -/

namespace Http

variable {S α : Type} {f : S → α} {transport : Transport S}
  (htransport : ∀ request st, f (transport request st).1 = f st)
include htransport

/-- What no request changes, none of those that follow a redirect changes. -/
theorem follow_keeps (left : Nat) (request : Request) (st : S) :
    f (follow transport left request st).1 = f st := by
  induction left generalizing request st with
  | zero =>
      rw [follow]
      split
      · rfl
      · split
        rename_i next response hsent
        have hkept := (congrArg (fun sent => f sent.1) hsent).symm.trans (htransport _ st)
        split <;> exact hkept
  | succ left ih =>
      rw [follow]
      split
      · rfl
      · split
        rename_i next response hsent
        have hkept := (congrArg (fun sent => f sent.1) hsent).symm.trans (htransport _ st)
        split
        · exact hkept
        · simp only
          split
          · exact (ih _ _).trans hkept
          · exact hkept

theorem send_keeps (request : Request) (st : S) : f (send transport request st).1 = f st := by
  unfold send
  split
  · rfl
  · split
    · rfl
    · exact follow_keeps htransport _ _ st

end Http

/-- Machines whose hosts are alike, and since a start have lost no file. -/
structure Machine.Alike (view : View) (start : FileSystem) (a b : Machine) : Prop where
  host : a.host.Alike view b.host
  grows : Grows start a.host.files
  grows' : Grows start b.host.files

namespace Edge

/-- The sinks that a hub may have: in memory, behind a transport that does not touch the host, or
in one of some folders. -/
inductive Sink.OnMachine (admits : String → Prop) : Sink Machine → Prop where
  | records (sink : Sink Records) : OnMachine admits (Hub.recordSink sink)
  | remote (store : Remote) {transport : Http.Transport Machine}
    (h : ∀ request machine, (transport request machine).1.host = machine.host) :
    OnMachine admits (store.sink transport)
  | folder {directory : String} (h : admits directory) :
    OnMachine admits (Hub.folderSink directory)

/-- Whether nothing is seen of what is in a folder, or of what was missing on the way to it. -/
structure FolderApart (view : View) (start : FileSystem) (directory : String) : Prop where
  way : ∀ path, IsOnWay directory path → NameMap.get? start path = none → ¬ view.nodes path
  inside : ∀ path, IsIn directory path → ¬ view.nodes path

theorem Sink.OnMachine.mono {admits admits' : String → Prop}
    (h : ∀ directory, admits directory → admits' directory) {sink : Sink Machine}
    (hsink : sink.OnMachine admits) : sink.OnMachine admits' := by
  cases hsink with
  | records sink => exact .records sink
  | remote store htransport => exact .remote store htransport
  | folder hadmits => exact .folder (h _ hadmits)

theorem FolderApart.mono {view view' : View} (h : ∀ path, view'.nodes path → view.nodes path)
    {start : FileSystem} {directory : String} (hapart : FolderApart view start directory) :
    FolderApart view' start directory :=
  ⟨fun path hway hnone hpath => hapart.way path hway hnone (h path hpath),
    fun path hinside hpath => hapart.inside path hinside (h path hpath)⟩

/-- Whether all puts leave alone what is seen of the host. -/
def Sink.Leaves (view : View) (start : FileSystem) (sink : Sink Machine) : Prop :=
  ∀ key value (machine : Machine), Grows start machine.host.files →
    machine.host.Leaves view (sink.put key value machine).1.host

/-- Whether machines stay alike when records are put under one key. -/
def Sink.Keeps (view : View) (start : FileSystem) (sink : Sink Machine) : Prop :=
  ∀ key (value value' : List UInt8) a b, (value = [] ↔ value' = []) → a.Alike view start b →
    (sink.put key value a).1.Alike view start (sink.put key value' b).1

section Puts

variable {view : View} {start : FileSystem} {sink : Sink Machine}

theorem host_put_remote (store : Remote) {transport : Http.Transport Machine}
    (h : ∀ request machine, (transport request machine).1.host = machine.host) (key : String)
    (value : List UInt8) (machine : Machine) :
    ((store.sink transport).put key value machine).1.host = machine.host := by
  have hsend := Http.send_keeps h (store.putRequest key value) machine
  simp only [Remote.sink]
  generalize Http.send transport (store.putRequest key value) machine = sent at hsend
  obtain ⟨after, answer⟩ := sent
  cases answer <;> exact hsend

theorem Sink.OnMachine.leaves (h : sink.OnMachine (FolderApart view start)) :
    sink.Leaves view start := by
  intro key value machine hgrows
  cases h with
  | records sink => exact .refl _ _
  | remote store htransport =>
      rw [host_put_remote store htransport]
      exact .refl _ _
  | @folder directory hapart =>
      obtain ⟨halike, hleft⟩ := folderSink_leaves
        (fun path hway hnone => hapart.way path hway (hgrows.get?_eq_none hnone)) hapart.inside key
        value
      exact ⟨⟨halike, fun _ _ => rfl⟩, hleft⟩

theorem Sink.Leaves.keeps (h : sink.Leaves view start) : sink.Keeps view start := by
  intro key value value' a b _ hab
  have ha := h key value a hab.grows
  have hb := h key value' b hab.grows'
  exact ⟨ha.alike.symm.trans (hab.host.trans hb.alike), hab.grows.trans ha.grows,
    hab.grows'.trans hb.grows⟩

/-- Machines that are alike in everything stay so, wherever records go. -/
theorem Sink.OnMachine.keeps {admits : String → Prop} (h : sink.OnMachine admits) :
    sink.Keeps .whole start := by
  intro key value value' a b hvalue hab
  cases h with
  | records sink => exact ⟨hab.host, hab.grows, hab.grows'⟩
  | remote store htransport =>
      have ha := host_put_remote store htransport key value a
      have hb := host_put_remote store htransport key value' b
      exact ⟨by rw [ha, hb]; exact hab.host, by rw [ha]; exact hab.grows,
        by rw [hb]; exact hab.grows'⟩
  | @folder directory _ =>
      have hgrows (value : List UInt8) (fs : FileSystem) :
          Grows fs ((folderSink directory).put key value fs).1 :=
        (@folderSink_leaves (fun _ => False) directory fs (fun _ _ _ => id) (fun _ _ => id) key
          value).2
      exact ⟨⟨folderSink_alike hab.host.files key hvalue, hab.host.databases⟩,
        hab.grows.trans (hgrows value _), hab.grows'.trans (hgrows value' _)⟩

end Puts

namespace Propagator

variable {view : View} {start : FileSystem} {p : Propagator Machine}

theorem leaves_putBundles (h : p.sink.Leaves view start) (project : String)
    (bundles : List Bundle) {machine : Machine} (hgrows : Grows start machine.host.files) :
    machine.host.Leaves view (p.putBundles project bundles machine).1.host := by
  induction bundles generalizing machine with
  | nil => exact .refl _ _
  | cons b bundles ih =>
      have hput := h (bundleKey project b) (recordBytes b) machine hgrows
      rw [← p.fst_putRecord] at hput
      exact hput.trans (ih (hgrows.trans hput.grows))

theorem keeps_putBundles (h : p.sink.Keeps view start) (project : String)
    (bundles : List Bundle) {a b : Machine} (hab : a.Alike view start b) :
    (p.putBundles project bundles a).1.Alike view start (p.putBundles project bundles b).1 := by
  induction bundles generalizing a b with
  | nil => exact hab
  | cons bundle bundles ih =>
      have hput := h (bundleKey project bundle) _ _ a b (Iff.refl (recordBytes bundle = [])) hab
      rw [← p.fst_putRecord, ← p.fst_putRecord] at hput
      exact ih hput

end Propagator

end Edge

end ProjectHub
