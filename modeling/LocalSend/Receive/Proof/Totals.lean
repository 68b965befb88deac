import LocalSend.Receive.Proof.Authority
import Mathlib.Algebra.Order.BigOperators.Group.List

/-!
# The total

The sizes of the rows are added up in a `qint64`, one after the other, so what is shown is their sum
if and only if that fits (`total_exact_iff`).
-/

set_option autoImplicit false

namespace LocalSend

theorem wrap64_eq_iff {n : Int} (h : 0 ≤ n) : wrap64 n = n ↔ n < 2 ^ 63 := by
  unfold wrap64
  rw [Int.bmod_def]
  omega

namespace TransferModel

/-- Rows that agree on what they were asked for with have the same sizes. -/
theorem sizes_of_declared {files files' : List FileEntry}
    (h : files'.map FileEntry.declared = files.map FileEntry.declared) :
    files'.map FileEntry.size = files.map FileEntry.size := by
  have hsizes := congrArg (List.map fun d => d.2.2.1) h
  rw [List.map_map, List.map_map] at hsizes
  exact hsizes

theorem totalSize_exact_iff {files : List FileEntry} (h : ∀ f ∈ files, 0 ≤ f.size) :
    totalSize files = (files.map FileEntry.size).sum ↔ (files.map FileEntry.size).sum < 2 ^ 63 := by
  rw [totalSize_eq]
  refine wrap64_eq_iff (List.sum_nonneg fun n hn => ?_)
  obtain ⟨f, hf, rfl⟩ := List.mem_map.1 hn
  exact h f hf

/-- The total is that of the rows, and none of them has a negative size. -/
structure Totalled (t : TransferModel) : Prop where
  total : t.totalBytes = totalSize t.files
  sizes : ∀ f ∈ t.files, 0 ≤ f.size

theorem Totalled.congr {t t' : TransferModel} (h : t.Totalled) (hd : t'.declared = t.declared)
    (hs : t'.shown = t.shown) : t'.Totalled where
  total := by
    have htotal : t'.totalBytes = t.totalBytes := congrArg (fun s => s.2.2) hs
    rw [htotal, h.total, totalSize_eq, totalSize_eq, sizes_of_declared hd]
  sizes f hf := by
    have hmem : f.size ∈ t'.files.map FileEntry.size := List.mem_map_of_mem hf
    rw [sizes_of_declared hd] at hmem
    obtain ⟨f', hf', heq⟩ := List.mem_map.1 hmem
    rw [← heq]
    exact h.sizes f' hf'

end TransferModel

namespace World

variable [Qt] {w v : World}

theorem park_totalled (w : World) (i : ConnId) : (w.park i).transfer.Totalled := by
  have ht := TransferModel.alike_setState (w.transfer.begin .receiving
    (requestPeer (w.conns i)).aliasName (requestPeer (w.conns i)).address
    (requestPeer (w.conns i)).deviceType (requestPeer (w.conns i)).fingerprint
    (parseEntries (requestFiles (w.conns i)))) .pending []
  refine TransferModel.Totalled.congr ⟨rfl, fun f hf => ?_⟩ ht.declared ht.shown
  obtain ⟨id, -, rfl⟩ := List.mem_map.1 hf
  exact parseEntry_size _ _

theorem Act.totalled {g : Guard} (ha : Act g w v) (h : w.Inv) (hw : w.transfer.Totalled) :
    v.transfer.Totalled := by
  obtain ⟨hd, hs⟩ | ⟨i, rfl, -⟩ := ha.declared h
  · exact hw.congr hd hs
  · exact park_totalled w i

theorem reached_totalled (h : Lib.Reached system w) : w.transfer.Totalled :=
  reached_keep (fun w e _ _ => permits_all w e)
    (fun w hs => by
      rw [hs.transfer]
      exact ⟨rfl, fun f hf => absurd hf List.not_mem_nil⟩)
    (fun ha hi hw => ha.totalled hi hw) h

/-- In every state the total is the sum of the sizes of the rows, and so is that of every prompt, if
and only if the sum fits a `qint64`. -/
theorem total_exact_iff (h : Lib.Reached system w) :
    (w.transfer.totalBytes = (w.transfer.files.map FileEntry.size).sum ↔
      (w.transfer.files.map FileEntry.size).sum < 2 ^ 63) ∧
    ∀ pre aliasName fileCount totalBytes post,
      w.log = pre ++ Effect.prompted aliasName fileCount totalBytes :: post →
      ∃ a, Log.asked pre = some a ∧ fileCount = a.files.length ∧
        (totalBytes = (a.files.map FileEntry.size).sum ↔
          (a.files.map FileEntry.size).sum < 2 ^ 63) := by
  have htotalled := reached_totalled h
  refine ⟨?_, fun pre aliasName fileCount totalBytes post hlog => ?_⟩
  · rw [htotalled.total]
    exact TransferModel.totalSize_exact_iff htotalled.sizes
  · have hexplained := reached_explained h
    obtain ⟨a, ⟨ha, -⟩, -, hcount, htotal⟩ := hexplained pre _ post hlog
    refine ⟨a, ha, hcount, ?_⟩
    rw [htotal]
    exact TransferModel.totalSize_exact_iff fun f hf =>
      Log.asked_size (hexplained.before hlog) ha hf

end World

namespace World

section

/-- Two files of 2^62 bytes. -/
def hugeFiles : QJsonObject :=
  offer (str "laptop") (str "ab12") [
    (str "a", descriptor (str "a.bin") 4611686018427387904),
    (str "b", descriptor (str "b.bin") 4611686018427387904)]

/-- The largest sizes that still add up. -/
def largeFiles : QJsonObject :=
  offer (str "laptop") (str "ab12") [
    (str "a", descriptor (str "a.bin") 4611686018427387904),
    (str "b", descriptor (str "b.bin") 4611686018427387392)]

local instance hugeQt : Qt :=
  Ascii.qt [(Ascii.json hugeFiles, hugeFiles), (Ascii.json largeFiles, largeFiles)] []

def hugeEvents (files : QJsonObject) : List Event := [
  .setQuickSave false,
  .startListening,
  .connect (str "10.0.0.2") none,
  .readyRead 0 (post prepareTarget (Ascii.json files))]

def isHugePrompt : Effect → Bool
  | .prompted _ _ totalBytes => totalBytes == -9223372036854775808
  | _ => false

/-- Their total is negative, on the accept page as well. -/
theorem huge_wraps :
    let w := (hugeEvents hugeFiles).foldl step helloStart
    w.transfer.files.map (·.size) = [4611686018427387904, 4611686018427387904] ∧
      w.transfer.totalBytes = -9223372036854775808 ∧ w.log.any isHugePrompt = true := by
  decide +kernel

theorem large_exact :
    let w := (hugeEvents largeFiles).foldl step helloStart
    w.transfer.fileCount = 2 ∧
      w.transfer.totalBytes = (w.transfer.files.map FileEntry.size).sum := by
  have hreached : Lib.Reached system ((hugeEvents largeFiles).foldl step helloStart) :=
    .run_any (hugeEvents largeFiles) (.start helloStart_start)
  exact ⟨by decide +kernel, (total_exact_iff hreached).1.2 (by decide +kernel)⟩

end

end World

end LocalSend
