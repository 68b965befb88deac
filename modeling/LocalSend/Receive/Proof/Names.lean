import LocalSend.Receive.Proof.Authority

/-!
# Names from a peer

What the accept page and the history can show of a peer. Every field is filtered where it is parsed
but one: the file name, which is filtered for the disk only (`reserveFilePath`). So the names are
clean in every run whose prepare-uploads name their files cleanly (`names_clean`).
-/

set_option autoImplicit false

namespace LocalSend

/-- The descriptors of the request name their files without anything `sanitizeText` drops. -/
def HttpConnection.NamesClean [Qt] (c : HttpConnection) : Prop :=
  ∀ id ∈ (World.requestFiles c).keys, Protocol.Clean
    ((((World.requestFiles c).value id).toObject.value (str "fileName")).toString [])

/-- What a model shows of the rows and their sender is clean. -/
structure TransferModel.Clean (t : TransferModel) : Prop where
  names : ∀ f ∈ t.files, Protocol.Clean f.fileName ∧ Protocol.Clean f.fileType
  peerAlias : Protocol.Clean t.peerAlias

theorem TransferModel.Clean.congr {t t' : TransferModel} (h : t.Clean)
    (hd : t'.declared = t.declared) (hp : t'.shown = t.shown) : t'.Clean where
  names f hf := by
    have hmem : f.declared ∈ t'.declared := List.mem_map_of_mem hf
    rw [hd] at hmem
    obtain ⟨f', hf', heq⟩ := List.mem_map.1 hmem
    have hname : f'.fileName = f.fileName := congrArg (fun d => d.2.1) heq
    have htype : f'.fileType = f.fileType := congrArg (fun d => d.2.2.2.1) heq
    rw [← hname, ← htype]
    exact h.names f' hf'
  peerAlias := by
    rw [show t'.peerAlias = t.peerAlias from congrArg Prod.fst hp]
    exact h.peerAlias

namespace World

section
variable [Qt]

theorem parseEntries_clean {c : HttpConnection} (h : c.NamesClean) {f : FileEntry}
    (hf : f ∈ parseEntries (requestFiles c)) :
    Protocol.Clean f.fileName ∧ Protocol.Clean f.fileType := by
  obtain ⟨id, hid, rfl⟩ := List.mem_map.1 hf
  refine ⟨?_, Protocol.sanitizeText_clean _ _⟩
  unfold parseEntry
  simp only
  split
  · decide
  · exact h id hid

/-- Prepare-uploads that become the transfer name their files cleanly. -/
def Cleanly (w : World) (e : Event) : Prop := ∀ i data, e = .readyRead i data →
  w.Completes i data → (w.heard i data).Takes i → ((w.heard i data).conns i).NamesClean

def cleanly : Guard := { Guard.all with park := HttpConnection.NamesClean }

variable {w v : World}

theorem Cleanly.permits {e : Event} (h : w.Cleanly e) : Permits cleanly w e :=
  { permits_all w e with
    serves := fun i data he hc _ => ⟨h i data he hc, fun _ _ _ => trivial, fun _ _ _ => trivial⟩ }

theorem park_clean {i : ConnId} (h : (w.conns i).NamesClean) : (w.park i).transfer.Clean := by
  have ht := TransferModel.alike_setState (w.transfer.begin .receiving
    (requestPeer (w.conns i)).aliasName (requestPeer (w.conns i)).address
    (requestPeer (w.conns i)).deviceType (requestPeer (w.conns i)).fingerprint
    (parseEntries (requestFiles (w.conns i)))) .pending []
  refine TransferModel.Clean.congr ⟨fun f hf => parseEntries_clean h hf, ?_⟩ ht.declared ht.shown
  exact DeviceInfo.fromPayload_aliasName_clean _

theorem Act.clean (ha : Act cleanly w v) (h : w.Inv) (hw : w.transfer.Clean) :
    v.transfer.Clean := by
  obtain ⟨hd, hp⟩ | ⟨i, rfl, hi⟩ := ha.declared h
  · exact hw.congr hd hp
  · exact park_clean hi

/-- In a run whose prepare-uploads name their files cleanly, nothing else of a peer reaches a model
unfiltered. -/
theorem names_clean (h : Lib.ReachedBy system Cleanly w) :
    (∀ f ∈ w.transfer.files, Protocol.Clean f.fileName ∧ Protocol.Clean f.fileType) ∧
    Protocol.Clean w.transfer.peerAlias ∧
    (∀ aliasName fileCount totalBytes,
      Effect.prompted aliasName fileCount totalBytes ∈ w.log → Protocol.Clean aliasName) ∧
    ∀ r, Effect.recorded r ∈ w.log →
      Protocol.Clean r.peerAlias ∧ ∀ name ∈ r.fileNames, Protocol.Clean name := by
  have hok : ∀ (w : World) (e : Event), w.Inv → w.Cleanly e → Permits cleanly w e :=
    fun _ _ _ he => he.permits
  have hclean : w.transfer.Clean := reached_keep hok
    (fun w hs => by
      rw [hs.transfer]
      exact ⟨fun f hf => absurd hf List.not_mem_nil, Protocol.clean_nil⟩)
    (fun ha hi hw => ha.clean hi hw) h
  have hexpl : w.Explained cleanly := reached_keep hok (fun _ => Start.explained) Act.explained h
  refine ⟨hclean.names, hclean.peerAlias, fun aliasName fileCount totalBytes hmem => ?_,
    fun r hmem => ?_⟩
  · obtain ⟨pre, post, hw⟩ := List.append_of_mem hmem
    obtain ⟨a, ⟨ha, -⟩, rfl, -⟩ := hexpl pre _ post hw
    obtain ⟨-, hpeer, -⟩ := Log.asked_request (hexpl.before hw) ha
    rw [hpeer]
    exact DeviceInfo.fromPayload_aliasName_clean _
  · obtain ⟨pre, post, hw⟩ := List.append_of_mem hmem
    obtain ⟨a, ha, halias, hnames⟩ := hexpl pre _ post hw
    obtain ⟨hclean, hpeer, hfiles⟩ := Log.asked_request (hexpl.before hw) ha
    refine ⟨?_, fun name hname => ?_⟩
    · rw [halias, hpeer]
      exact DeviceInfo.fromPayload_aliasName_clean _
    · obtain ⟨f, hf, rfl⟩ := hnames name hname
      rw [hfiles] at hf
      exact (parseEntries_clean hclean hf).1

end

/-! ## A name with markup in it -/

section

local instance plainQt : Qt := Ascii.qt [(Ascii.json oneFile, oneFile)] []

theorem oneFile_clean : ∃ w : World, w.transfer.fileCount = 1 ∧
    ∀ f ∈ w.transfer.files, Protocol.Clean f.fileName ∧ Protocol.Clean f.fileType := by
  have hok : Lib.Allowed system Cleanly helloStart ((helloEvents oneFile).take 3) := by
    refine ⟨?_, ?_, ?_, trivial⟩
    · rintro i data ⟨⟩
    · rintro i data ⟨⟩
    · rintro i data ⟨⟩ - -
      unfold HttpConnection.NamesClean
      decide +kernel
  have hreached : Lib.ReachedBy system Cleanly
      (((helloEvents oneFile).take 3).foldl step helloStart) :=
    Lib.ReachedBy.run _ (.start helloStart_start) hok
  have hcount : (((helloEvents oneFile).take 3).foldl step helloStart).transfer.fileCount = 1 := by
    decide +kernel
  exact ⟨_, hcount, (names_clean hreached).1⟩

end

def markupFile : QJsonObject :=
  offer (str "laptop") (str "ab12") [(str "a", descriptor (str "<b>") 5)]

section

local instance markupQt : Qt := Ascii.qt [(Ascii.json markupFile, markupFile)] []

/-- Angle brackets in a file name reach the row and the history record. -/
theorem markup_shown : ∃ w : World, Lib.Reached system w ∧
    (∃ f ∈ w.transfer.files, ¬ Protocol.Clean f.fileName) ∧
    ∃ r ∈ w.history.records, ∃ name ∈ r.fileNames, ¬ Protocol.Clean name :=
  ⟨(helloEvents markupFile).foldl step helloStart,
    Lib.ReachedBy.run_any _ (.start helloStart_start), by decide +kernel⟩

end

end World

end LocalSend
