import LanMouse.Lib.Verdict
import LanMouse.Proto.Panic

/-!
# Where an encoded event ends

No string that stops short of the encoding of a variable-length event, or goes on after it, is
accepted as an event, as long as the lengths in front of its fields are those of the fields. A
length is written as a `u32`, so a field of `2 ^ 32` bytes or more is read back as its first bytes
only, and the reader goes on in the middle of it. `Delimited` says for which events this can do no
harm: those that are refused in the end because what is read as a text is none, or what is read as a
block of entries is none.
-/
namespace LanMouse.Proto

open Bytes VarCodec

/-! ### The decoders are local -/

theorem readHash_local : Local readHash := .array 32 _

theorem readU64Be_local : Local readU64Be := (Local.word 8 _).map

theorem readBool_local : Local readBool := (Local.word 1 _).bind fun _ => .pure _

theorem readBytes_local : Local readBytes := (Local.word 4 _).bind fun len => .take len _

theorem readString_local : Local readString := by
  refine readBytes_local.bind fun bytes => ?_
  cases fromUtf8 bytes with
  | some s => exact .pure s
  | none => exact .fail _

theorem readInline_local : Local readInline := by
  refine readBool_local.bind fun hasInline => ?_
  cases hasInline with
  | true => exact readBytes_local.map
  | false => exact .pure none

theorem readVecVar_local (α : Type) [VarCodec α] : Local (readVecVar α) := by
  refine (Local.word 4 _).bind fun len => (Local.take len _).bind fun body => ?_
  cases readItems (decodeVarBody : Decode α) body.length body with
  | ok items => exact .pure items
  | error f => exact .fail f

theorem decodeVar_local {t : EventType} (var : t.isFixed = false) : Local (decodeVar t) := by
  cases t with
  | clipboardText =>
    exact (readHash_local.bind fun _ => readHash_local.bind fun _ => readU64Be_local.bind fun _ =>
      readInline_local.bind fun _ => .pure _).map
  | clipboardImage =>
    exact (readHash_local.bind fun _ => readString_local.bind fun _ => readHash_local.bind fun _ =>
      readU64Be_local.bind fun _ => .pure _).map
  | clipboardFiles =>
    exact (readHash_local.bind fun _ => (readVecVar_local FileEntry).bind fun _ => .pure _).map
  | fileTransferOffer =>
    exact (readHash_local.bind fun _ => readString_local.bind fun _ => readU64Be_local.bind fun _ =>
      readString_local.bind fun _ => .pure _).map
  | fileTransferResponse =>
    exact (readHash_local.bind fun _ => readBool_local.bind fun _ => .pure _).map
  | fileTransferCancel => exact (readHash_local.bind fun _ => .pure _).map
  | clipboardRequest => exact (readHash_local.bind fun _ => .pure _).map
  | _ => exact absurd var.symm Bool.false_ne_true

/-! ### Fields -/

/-- The bytes of a field behind its length. -/
def field (bs : List UInt8) : List UInt8 := toBE 4 bs.length ++ bs

/-- What is read of a field: as many bytes as the four bytes of its length say. -/
def cut (bs : List UInt8) : List UInt8 := bs.take (bs.length % 2 ^ 32)

/-- What is left of a field after it was read. -/
def excess (bs : List UInt8) : List UInt8 := bs.drop (bs.length % 2 ^ 32)

@[simp] theorem length_cut (bs : List UInt8) : (cut bs).length = bs.length % 2 ^ 32 := by
  rw [cut, List.length_take]
  exact Nat.min_eq_left (Nat.mod_le ..)

theorem length_cut_lt (bs : List UInt8) : (cut bs).length < 2 ^ 32 := by
  rw [length_cut]
  exact Nat.mod_lt _ (by decide)

theorem length_excess (bs : List UInt8) : (excess bs).length = bs.length - bs.length % 2 ^ 32 :=
  List.length_drop ..

theorem field_eq (bs : List UInt8) : field bs = field (cut bs) ++ excess bs := by
  have length : toBE 4 (cut bs).length = toBE 4 bs.length := by
    rw [length_cut]
    exact toBE_mod 4 bs.length
  rw [field, field, length, List.append_assoc, cut, excess, List.take_append_drop]

theorem excess_eq_nil_iff {bs : List UInt8} : excess bs = [] ↔ bs.length < 2 ^ 32 := by
  rw [← List.length_eq_zero_iff, length_excess]
  omega

theorem length_excess_of_long {bs : List UInt8} (long : ¬ bs.length < 2 ^ 32) :
    2 ^ 32 ≤ (excess bs).length := by
  rw [length_excess]
  omega

theorem asBytes_of_fromUtf8 {bs : List UInt8} {s : String} (text : fromUtf8 bs = some s) :
    asBytes s = bs := by
  unfold fromUtf8 String.fromUTF8? at text
  split_ifs at text with valid
  obtain rfl := Option.some.inj text
  rfl

theorem rejects_readString {bs : List UInt8} (fits : bs.length < 2 ^ 32)
    (noText : fromUtf8 bs = none) : Rejects readString (field bs) := by
  refine (Rejects.after (reads_readBytes fits) ?_).congr (List.append_nil _)
  rw [noText]
  exact .fail _

/-- Any 32 bytes are a hash. -/
theorem exists_hash_front (bs : List UInt8) (room : 32 ≤ bs.length) :
    ∃ (h : Hash) (rest : List UInt8), bs = h.toList ++ rest ∧ rest.length + 32 = bs.length := by
  refine ⟨⟨(bs.take 32).toArray, by simp; omega⟩, bs.drop 32, ?_, by simp; omega⟩
  exact (List.take_append_drop 32 bs).symm

/-- Any eight bytes are a word. -/
theorem exists_word_front (bs : List UInt8) (room : 8 ≤ bs.length) :
    ∃ (n : UInt64) (rest : List UInt8),
      bs = toBE 8 n.toNat ++ rest ∧ rest.length + 8 = bs.length := by
  have length : (bs.take 8).length = 8 := by
    simp
    omega
  have small : ofBE (bs.take 8) < 2 ^ 64 := by
    have := ofBE_lt (bs.take 8)
    rwa [length] at this
  have word := toBE_ofBE (bs.take 8)
  rw [length] at word
  refine ⟨UInt64.ofNat (ofBE (bs.take 8)), bs.drop 8, ?_, by simp; omega⟩
  rw [UInt64.toNat_ofNat_of_lt' small, word, List.take_append_drop]

/-! ### Blocks of entries -/

theorem readBytes_eq {buf bs rest : List UInt8} (ok : readBytes buf = .ok (bs, rest)) :
    buf = field bs ++ rest := by
  obtain ⟨len, mid, length, read⟩ := bind_ok_iff.mp ok
  obtain ⟨rfl, -⟩ := word_ok length
  obtain ⟨rfl, rfl⟩ := take_ok read
  exact (List.append_assoc ..).symm

theorem readString_eq {buf rest : List UInt8} {s : String} (ok : readString buf = .ok (s, rest)) :
    buf = field (asBytes s) ++ rest := by
  obtain ⟨bs, mid, read, text⟩ := bind_ok_iff.mp ok
  cases valid : fromUtf8 bs with
  | none =>
    rw [valid] at text
    cases text
  | some t =>
    rw [valid] at text
    cases text
    rw [asBytes_of_fromUtf8 valid]
    exact readBytes_eq read

theorem readU64Be_eq {buf rest : List UInt8} {n : UInt64} (ok : readU64Be buf = .ok (n, rest)) :
    buf = toBE 8 n.toNat ++ rest := by
  obtain ⟨value, read, rfl⟩ := map_ok_iff.mp ok
  obtain ⟨rfl, small⟩ := word_ok read
  rw [UInt64.toNat_ofNat_of_lt' small]

theorem encodeVarBody_fileEntry (e : FileEntry) :
    encodeVarBody e [] = field (asBytes e.name) ++
      (toBE 8 e.size.toNat ++ (field (asBytes e.mime) ++ e.sha256.toList)) := by
  simp [encodeVarBody, field]

theorem decodeVarBody_fileEntry_eq (buf : List UInt8) (e : FileEntry) (rest : List UInt8)
    (ok : decodeVarBody buf = .ok (e, rest)) : buf = encodeVarBody e [] ++ rest := by
  obtain ⟨name, _, readName, ok⟩ := bind_ok_iff.mp ok
  obtain ⟨size, _, readSize, ok⟩ := bind_ok_iff.mp ok
  obtain ⟨mime, _, readMime, ok⟩ := bind_ok_iff.mp ok
  obtain ⟨sha256, _, readSha, ok⟩ := bind_ok_iff.mp ok
  cases ok
  rw [readString_eq readName, readU64Be_eq readSize, readString_eq readMime, array_ok readSha,
    encodeVarBody_fileEntry]
  simp only [List.append_assoc]

/-- The bytes are encoded entries, one after another. -/
def IsBlock (bs : List UInt8) : Prop :=
  ∃ entries : List FileEntry, bs = entries.flatMap fun e => encodeVarBody e []

theorem rejects_readVecVar {bs : List UInt8} (fits : bs.length < 2 ^ 32) (noBlock : ¬ IsBlock bs) :
    Rejects (readVecVar FileEntry) (field bs) := by
  refine Rejects.after (Reads.word fits) ((Rejects.after (Reads.take rfl) ?_).congr
    (List.append_nil _))
  cases items : readItems (decodeVarBody : Decode FileEntry) bs.length bs with
  | ok entries => exact absurd ⟨entries, readItems_ok decodeVarBody_fileEntry_eq items⟩ noBlock
  | error f => exact .fail f

/-! ### Events -/

/-- What an offer's decoder has in front of it once it has read a name. -/
def FileTransferOffer.behindName (o : FileTransferOffer) : List UInt8 :=
  excess (asBytes o.name) ++ (toBE 8 o.size.toNat ++ field (asBytes o.mime))

/-- What it reads as the media type: behind eight bytes for the size, as many bytes as the next four
say. -/
def FileTransferOffer.mimeRead (o : FileTransferOffer) : List UInt8 :=
  (o.behindName.drop 12).take (ofBE ((o.behindName.drop 8).take 4))

/-- Each field is shorter than `2 ^ 32` bytes, or what is read in place of a text or of the block of
entries is not one. -/
def ProtoEvent.Delimited : ProtoEvent → Prop
  | .clipboardText ct => ∀ bs ∈ ct.contentInline, bs.length < 2 ^ 32
  | .clipboardImage ci =>
    (asBytes ci.mime).length < 2 ^ 32 ∨ fromUtf8 (cut (asBytes ci.mime)) = none
  | .clipboardFiles cf => cf.block.length < 2 ^ 32 ∨ ¬ IsBlock (cut cf.block)
  | .fileTransferOffer o =>
    ((asBytes o.name).length < 2 ^ 32 ∧ (asBytes o.mime).length < 2 ^ 32) ∨
      fromUtf8 (cut (asBytes o.name)) = none ∨ fromUtf8 o.mimeRead = none
  | _ => True

/-- Of a body that starts like that of an event, nothing may be left. -/
theorem alone_body_iff (t : EventType) {event : ProtoEvent} {body rest : List UInt8}
    (var : t.isFixed = false) (type : event.eventType = t) (fits : event.LengthsFit)
    (split : body = event.body ++ rest) : Alone (decodeVar t) body ↔ rest = [] := by
  subst type split
  have reads := ProtoEvent.reads_decodeVar var fits
  constructor
  · intro alone
    by_contra left
    exact reads.not_alone left alone
  · rintro rfl
    rw [List.append_nil]
    exact reads.alone (decodeVar_local var)

theorem alone_clipboardText (ct : ClipboardText) :
    Alone (decodeVar .clipboardText) (ProtoEvent.clipboardText ct).body ↔
      ∀ bs ∈ ct.contentInline, bs.length < 2 ^ 32 := by
  cases inline : ct.contentInline with
  | none =>
    have fits : (ProtoEvent.clipboardText ct).LengthsFit := by
      intro bs mem
      rw [inline] at mem
      cases mem
    rw [alone_body_iff .clipboardText rfl rfl fits (List.append_nil _).symm]
    exact ⟨fun _ _ => nofun, fun _ => rfl⟩
  | some bs =>
    let short : ClipboardText := { ct with contentInline := some (cut bs) }
    have fits : (ProtoEvent.clipboardText short).LengthsFit := by
      rintro _ ⟨⟩
      exact length_cut_lt bs
    have split : (ProtoEvent.clipboardText ct).body =
        (ProtoEvent.clipboardText short).body ++ excess bs := by
      have cutField := field_eq bs
      simp only [field] at cutField
      simp [ProtoEvent.body, encodeVarBody, short, inline, cutField]
    rw [alone_body_iff .clipboardText rfl rfl fits split, excess_eq_nil_iff]
    simp

theorem alone_clipboardImage (ci : ClipboardImage) :
    Alone (decodeVar .clipboardImage) (ProtoEvent.clipboardImage ci).body ↔
      (asBytes ci.mime).length < 2 ^ 32 ∨ fromUtf8 (cut (asBytes ci.mime)) = none := by
  let tail := excess (asBytes ci.mime) ++ (ci.sha256.toList ++ toBE 8 ci.size.toNat)
  have whole : (ProtoEvent.clipboardImage ci).body =
      ci.fingerprint.toList ++ (field (cut (asBytes ci.mime)) ++ tail) := by
    have cutField := field_eq (asBytes ci.mime)
    simp only [field] at cutField
    simp [ProtoEvent.body, encodeVarBody, tail, field, cutField]
  have length : tail.length = (excess (asBytes ci.mime)).length + 40 := by
    simp [tail]
  cases text : fromUtf8 (cut (asBytes ci.mime)) with
  | none =>
    have refused : Rejects (decodeVar .clipboardImage) (ProtoEvent.clipboardImage ci).body := by
      rw [whole, ← List.append_assoc]
      refine Rejects.append (Rejects.map (Rejects.after (reads_readHash _) ?_) _) _
      exact (rejects_readString (length_cut_lt _) text).first _
    exact ⟨fun _ => .inr rfl, fun _ => refused.alone (decodeVar_local rfl)⟩
  | some s =>
    obtain ⟨sha256, afterHash, hash, hashLength⟩ := exists_hash_front tail (by omega)
    obtain ⟨size, rest, word, wordLength⟩ := exists_word_front afterHash (by omega)
    have fits : (ProtoEvent.clipboardImage ⟨ci.fingerprint, s, sha256, size⟩).LengthsFit := by
      have small := length_cut_lt (asBytes ci.mime)
      rwa [← asBytes_of_fromUtf8 text] at small
    have split : (ProtoEvent.clipboardImage ci).body =
        (ProtoEvent.clipboardImage ⟨ci.fingerprint, s, sha256, size⟩).body ++ rest := by
      rw [whole, hash, word, ← asBytes_of_fromUtf8 text]
      simp [ProtoEvent.body, encodeVarBody, field]
    have left : rest = [] ↔ excess (asBytes ci.mime) = [] := by
      rw [← List.length_eq_zero_iff, ← List.length_eq_zero_iff]
      omega
    rw [alone_body_iff .clipboardImage rfl rfl fits split, left, excess_eq_nil_iff]
    simp

theorem alone_clipboardFiles (cf : ClipboardFiles) :
    Alone (decodeVar .clipboardFiles) (ProtoEvent.clipboardFiles cf).body ↔
      cf.block.length < 2 ^ 32 ∨ ¬ IsBlock (cut cf.block) := by
  have whole : (ProtoEvent.clipboardFiles cf).body =
      cf.fingerprint.toList ++ (field (cut cf.block) ++ excess cf.block) := by
    rw [ProtoEvent.body_clipboardFiles, ← field_eq, field]
  by_cases block : IsBlock (cut cf.block)
  · obtain ⟨entries, same⟩ := block
    have block : ClipboardFiles.block ⟨cf.fingerprint, entries⟩ = cut cf.block := same.symm
    have split : (ProtoEvent.clipboardFiles cf).body =
        (ProtoEvent.clipboardFiles ⟨cf.fingerprint, entries⟩).body ++ excess cf.block := by
      rw [whole, ProtoEvent.body_clipboardFiles, block, field]
      simp only [List.append_assoc]
    have fits : (ProtoEvent.clipboardFiles ⟨cf.fingerprint, entries⟩).LengthsFit := by
      refine ProtoEvent.lengthsFit_of_length_block ?_
      rw [block]
      exact length_cut_lt cf.block
    rw [alone_body_iff .clipboardFiles rfl rfl fits split, excess_eq_nil_iff]
    simp [IsBlock, same]
  · have refused : Rejects (decodeVar .clipboardFiles) (ProtoEvent.clipboardFiles cf).body := by
      rw [whole, ← List.append_assoc]
      refine Rejects.append (Rejects.map (Rejects.after (reads_readHash _) ?_) _) _
      exact (rejects_readVecVar (length_cut_lt _) block).first _
    exact ⟨fun _ => .inr block, fun _ => refused.alone (decodeVar_local rfl)⟩

/-- What is read behind the name is a size and a media type, and leaves nothing just if both texts
of the offer fit. -/
theorem behindName_eq (o : FileTransferOffer) :
    ∃ (size : UInt64) (rest : List UInt8),
      o.behindName = toBE 8 size.toNat ++ (field o.mimeRead ++ rest) ∧
        o.mimeRead.length < 2 ^ 32 ∧
        (rest = [] ↔ (asBytes o.name).length < 2 ^ 32 ∧ (asBytes o.mime).length < 2 ^ 32) := by
  have total : o.behindName.length =
      (excess (asBytes o.name)).length + (12 + (asBytes o.mime).length) := by
    simp [FileTransferOffer.behindName, field]
    omega
  obtain ⟨size, afterSize, word, wordLength⟩ := exists_word_front o.behindName (by omega)
  have skip : o.behindName.drop 8 = afterSize := by
    rw [word, List.drop_left' (length_toBE 8 _)]
  have skipMore : o.behindName.drop 12 = afterSize.drop 4 := by
    rw [← skip, List.drop_drop]
  have lengthFour : (afterSize.take 4).length = 4 := by
    simp
    omega
  have small : ofBE (afterSize.take 4) < 2 ^ 32 := by
    have := ofBE_lt (afterSize.take 4)
    rwa [lengthFour] at this
  have four := toBE_ofBE (afterSize.take 4)
  rw [lengthFour] at four
  have mime : o.mimeRead = (afterSize.drop 4).take (ofBE (afterSize.take 4)) := by
    rw [FileTransferOffer.mimeRead, skip, skipMore]
  have room : ofBE (afterSize.take 4) ≤ (afterSize.drop 4).length ∧
      ((afterSize.drop 4).length ≤ ofBE (afterSize.take 4) ↔
        (asBytes o.name).length < 2 ^ 32 ∧ (asBytes o.mime).length < 2 ^ 32) := by
    by_cases fits : (asBytes o.name).length < 2 ^ 32
    · have own : afterSize = field (asBytes o.mime) := by
        rw [← skip, FileTransferOffer.behindName, excess_eq_nil_iff.mpr fits, List.nil_append,
          List.drop_left' (length_toBE 8 _)]
      rw [own, field, List.take_left' (length_toBE 4 _), List.drop_left' (length_toBE 4 _),
        ofBE_toBE]
      omega
    · have long := length_excess_of_long fits
      rw [List.length_drop]
      omega
  have length : o.mimeRead.length = ofBE (afterSize.take 4) := by
    rw [mime, List.length_take]
    exact Nat.min_eq_left room.1
  refine ⟨size, (afterSize.drop 4).drop (ofBE (afterSize.take 4)), ?_, by omega, ?_⟩
  · rw [word, field, length, four, mime, List.append_assoc, List.take_append_drop,
      List.take_append_drop]
  · rw [List.drop_eq_nil_iff]
    exact room.2

theorem alone_fileTransferOffer (o : FileTransferOffer) :
    Alone (decodeVar .fileTransferOffer) (ProtoEvent.fileTransferOffer o).body ↔
      ((asBytes o.name).length < 2 ^ 32 ∧ (asBytes o.mime).length < 2 ^ 32) ∨
        fromUtf8 (cut (asBytes o.name)) = none ∨ fromUtf8 o.mimeRead = none := by
  have whole : (ProtoEvent.fileTransferOffer o).body =
      o.sha256.toList ++ (field (cut (asBytes o.name)) ++ o.behindName) := by
    have cutField := field_eq (asBytes o.name)
    simp only [field] at cutField
    simp [ProtoEvent.body, encodeVarBody, FileTransferOffer.behindName, field, cutField]
  obtain ⟨size, rest, behind, mimeFits, left⟩ := behindName_eq o
  cases name : fromUtf8 (cut (asBytes o.name)) with
  | none =>
    have refused : Rejects (decodeVar .fileTransferOffer)
        (ProtoEvent.fileTransferOffer o).body := by
      rw [whole, ← List.append_assoc]
      refine Rejects.append (Rejects.map (Rejects.after (reads_readHash _) ?_) _) _
      exact (rejects_readString (length_cut_lt _) name).first _
    exact ⟨fun _ => .inr (.inl rfl), fun _ => refused.alone (decodeVar_local rfl)⟩
  | some s =>
    have nameBytes := asBytes_of_fromUtf8 name
    have nameFits := length_cut_lt (asBytes o.name)
    rw [← nameBytes] at nameFits whole
    cases mime : fromUtf8 o.mimeRead with
    | none =>
      have refused :
          Rejects (decodeVar .fileTransferOffer) (ProtoEvent.fileTransferOffer o).body := by
        have split : (ProtoEvent.fileTransferOffer o).body = (o.sha256.toList ++
            (field (asBytes s) ++ (toBE 8 size.toNat ++ field o.mimeRead))) ++ rest := by
          rw [whole, behind]
          simp only [List.append_assoc]
        rw [split]
        refine Rejects.append (Rejects.map (Rejects.after (reads_readHash _) ?_) _) _
        refine Rejects.after (reads_readString nameFits) ?_
        refine Rejects.after (reads_readU64Be size) ?_
        exact (rejects_readString mimeFits mime).first _
      exact ⟨fun _ => .inr (.inr rfl), fun _ => refused.alone (decodeVar_local rfl)⟩
    | some t =>
      have mimeBytes := asBytes_of_fromUtf8 mime
      rw [← mimeBytes] at mimeFits behind
      have split : (ProtoEvent.fileTransferOffer o).body =
          (ProtoEvent.fileTransferOffer ⟨o.sha256, s, size, t⟩).body ++ rest := by
        rw [whole, behind]
        simp [ProtoEvent.body, encodeVarBody, field]
      have fits : (ProtoEvent.fileTransferOffer ⟨o.sha256, s, size, t⟩).LengthsFit :=
        ⟨nameFits, mimeFits⟩
      rw [alone_body_iff .fileTransferOffer rfl rfl fits split, left]
      simp

theorem alone_iff_delimited {e : ProtoEvent} (var : e.eventType.isFixed = false) :
    Alone (decodeVar e.eventType) e.body ↔ e.Delimited := by
  have settled (fits : e.LengthsFit) : Alone (decodeVar e.eventType) e.body ↔ True :=
    iff_true_intro ((ProtoEvent.reads_decodeVar var fits).alone (decodeVar_local var))
  cases e with
  | clipboardText ct => exact alone_clipboardText ct
  | clipboardImage ci => exact alone_clipboardImage ci
  | clipboardFiles cf => exact alone_clipboardFiles cf
  | fileTransferOffer o => exact alone_fileTransferOffer o
  | fileTransferResponse r => exact settled trivial
  | fileTransferCancel c => exact settled trivial
  | clipboardRequest r => exact settled trivial
  | input e => exact absurd (isFixed_input e) (by simp [var])
  | _ => exact absurd var.symm Bool.false_ne_true

/-! ### Frame bodies -/

/-- No string that stops short of the encoding of `e`, or goes on after it, is accepted. -/
def ProtoEvent.SelfDelimiting (e : ProtoEvent) : Prop :=
  ∀ bytes, e.toVec = .ok bytes → ∀ w, w <+: bytes ∨ bytes <+: w → w ≠ bytes →
    ∀ event, ProtoEvent.tryFromSlice w ≠ .ok event

theorem selfDelimiting_iff_alone {e : ProtoEvent} (var : e.eventType.isFixed = false) :
    e.SelfDelimiting ↔ Alone (decodeVar e.eventType) e.body := by
  have known := EventType.tryFrom_toByte e.eventType
  constructor
  · rintro alone w along other ⟨event, ok⟩
    refine alone _ e.toVec_eq (e.eventType.toByte :: w) ?_ ?_ event
      ((tryFromSlice_var_ok_iff known var).mpr ok)
    · simpa using along
    · simpa using other
  · rintro alone bytes written w along other event ok
    obtain rfl := Except.ok.inj (e.toVec_eq.symm.trans written)
    cases w with
    | nil => cases ok
    | cons b w =>
      simp only [List.cons_prefix_cons, ne_eq, List.cons.injEq, not_and] at along other
      obtain rfl : b = e.eventType.toByte := by
        obtain ⟨same, -⟩ | ⟨same, -⟩ := along
        · exact same
        · exact same.symm
      refine alone w ?_ (other rfl) ⟨event, (tryFromSlice_var_ok_iff known var).mp ok⟩
      simpa using along

/-- The encoding of a variable-length event tells its own end, just if no field is cut by its length
or the cut makes it unreadable. -/
theorem ProtoEvent.selfDelimiting_iff (e : ProtoEvent) (var : e.eventType.isFixed = false) :
    e.SelfDelimiting ↔ e.Delimited := by
  rw [selfDelimiting_iff_alone var]
  exact alone_iff_delimited var

theorem ProtoEvent.selfDelimiting_iff_cancel :
    (ProtoEvent.fileTransferCancel ⟨Vector.replicate 32 7⟩).eventType.isFixed = false ∧
      (ProtoEvent.fileTransferCancel ⟨Vector.replicate 32 7⟩).SelfDelimiting :=
  ⟨rfl, (ProtoEvent.selfDelimiting_iff _ rfl).mpr trivial⟩

/-- A text of `2 ^ 32` bytes is announced as one of none, and so is accepted without them. -/
theorem ProtoEvent.not_selfDelimiting_long_text :
    ¬ (ProtoEvent.clipboardText ⟨Vector.replicate 32 1, Vector.replicate 32 1, 0,
      some (List.replicate (2 ^ 32) 0)⟩).SelfDelimiting := by
  rw [selfDelimiting_iff_alone rfl]
  intro alone
  have short := (alone_clipboardText _).mp alone _ rfl
  rw [List.length_replicate] at short
  exact absurd short (by decide)

end LanMouse.Proto
