import Wayfinder.Forwarding
import Wayfinder.Recode

/-!
# Receipt under other numbers

A recoded frame does to a recoded engine what the frame did to the engine, provided the
plain comparison of the two sequence numbers of a path comes out the same.
-/

namespace Wayfinder

set_option autoImplicit false

open Table

namespace Recoding

variable (s : Recoding) {c : Capacities}

/-! ### Packets -/

section Packets
variable (e : BatmanEngine c) (now : Duration) (f : LinkFrame)

/-- A packet of another sub-type is not touched. -/
theorem payload_of_tag {tag : U8} {rest : Bytes} (h : tag ≠ BatmanPacketType.ogm.asU8) :
    s.payload (tag :: rest) = tag :: rest := by
  unfold payload
  split
  · rfl
  · rename_i ogm rest' hread
    have hbytes := BatmanOgmPacket.asBytes_of_readFromPrefix hread
    rw [if_neg]
    rw [← (List.cons.inj hbytes).1]
    exact h

theorem payload_asBytes (ogm : BatmanOgmPacket) (rest : Bytes)
    (h : ogm.packetType = BatmanPacketType.ogm.asU8) :
    s.payload (ogm.asBytes ++ rest) =
      { ogm with seqno := Be32.ofU32 (ogm.seqno.get + s.seqno ogm.orig) }.asBytes ++ rest := by
  unfold payload
  rw [BatmanOgmPacket.readFromPrefix_asBytes]
  dsimp only
  rw [if_pos h]

/-- The tag and the version stay. -/
theorem rxSubtype_frame : BatmanEngine.rxSubtype (s.frame f) = BatmanEngine.rxSubtype f := by
  unfold frame payload
  split
  · rfl
  · rename_i ogm rest hread
    split
    · have hbytes := BatmanOgmPacket.asBytes_of_readFromPrefix hread
      unfold BatmanEngine.rxSubtype
      rw [hbytes]
      rfl
    · rfl

theorem frame_of_subtype {type : Option BatmanPacketType}
    (hsub : BatmanEngine.rxSubtype f = some type) (hother : type ≠ some .ogm) : s.frame f = f := by
  unfold BatmanEngine.rxSubtype at hsub
  split at hsub
  · rename_i tag version rest hpayload
    split at hsub
    · cases hsub
    obtain rfl := Option.some.inj hsub
    have htag : tag ≠ BatmanPacketType.ogm.asU8 := by
      rintro rfl
      exact hother (BatmanPacketType.fromU8_asU8 .ogm)
    unfold frame
    rw [hpayload, payload_of_tag s htag, ← hpayload]
  · cases hsub

end Packets

/-! ### Receipt -/

section Receipt
variable (e : BatmanEngine c) (now : Duration) (f : LinkFrame)

theorem noteRelayOversizeDrop_engine :
    (s.engine e).noteRelayOversizeDrop = s.engine e.noteRelayOversizeDrop := rfl

theorem classify_add (b : SeqnoBands) (highWater seqno d : U32) :
    b.classify (highWater + d) (seqno + d) = b.classify highWater seqno := by
  unfold SeqnoBands.classify
  rw [Serial.dist_add_add]

theorem admitSeqno_highWater (b : SeqnoBands) (d : U32) (hw : HighWater) (seqno : U32) :
    admitSeqno b (s.highWater d hw) (seqno + d) (s.instant now) =
      (s.highWater d (admitSeqno b hw seqno now).1, (admitSeqno b hw seqno now).2) := by
  have hclass : ∀ a : U32, b.classify (a + d) (seqno + d) = b.classify a seqno :=
    fun a => classify_add b a seqno d
  have hsame : (seqno + d == hw.lastSeqno + d) = (seqno == hw.lastSeqno) := by
    rw [Bool.eq_iff_iff, beq_iff_eq, beq_iff_eq]
    exact add_left_inj d
  have hwatch : (s.highWater d hw).resyncWatch.getD ⟨s.millis (Millis.fromDuration now), seqno + d⟩ =
      ⟨s.millis (hw.resyncWatch.getD ⟨Millis.fromDuration now, seqno⟩).since,
        (hw.resyncWatch.getD ⟨Millis.fromDuration now, seqno⟩).seqno + d⟩ := by
    unfold highWater
    cases hw.resyncWatch <;> rfl
  have hlast : (s.highWater d hw).lastSeqno = hw.lastSeqno + d := rfl
  unfold admitSeqno
  rw [fromDuration_instant]
  dsimp only
  rw [hwatch, hlast]
  simp only [hclass, elapsedSince_millis, hsame]
  generalize hw.resyncWatch.getD ⟨Millis.fromDuration now, seqno⟩ = watch
  cases b.classify hw.lastSeqno seqno with
  | advance => rfl
  | duplicate => rfl
  | implausibleSeqno =>
    dsimp only
    split
    · rfl
    · split <;> rfl

/-! Originator messages. -/

/-- The plain comparison that tells a newer number of a path comes out the same. -/
def Comparable (d : U32) (r : OriginatorRecord) (src : Mac) (seqno : U32) : Prop :=
  ∀ p ∈ r.paths.toList, p.neighborIdent = src →
    (p.lastSeqno < seqno ↔ p.lastSeqno + d < seqno + d)

theorem refreshPath_path {orig : Mac} {p : NeighborStats} {tq : U8} {seqno : U32} {nowMs : Millis}
    (h : p.lastSeqno < seqno ↔ p.lastSeqno + s.seqno orig < seqno + s.seqno orig) :
    BatmanEngine.refreshPath (s.path orig p) tq (seqno + s.seqno orig) (s.millis nowMs) =
      s.path orig (BatmanEngine.refreshPath p tq seqno nowMs) := by
  unfold BatmanEngine.refreshPath path
  simp only [← h, elapsedSince_millis]

theorem learnPath_record {orig src : Mac} {r : OriginatorRecord} {tq : U8} {seqno : U32}
    {nowMs : Millis} (h : Comparable (s.seqno orig) r src seqno) :
    BatmanEngine.learnPath (s.record orig r) src tq (seqno + s.seqno orig) (s.millis nowMs) =
      s.record orig (BatmanEngine.learnPath r src tq seqno nowMs) := by
  have hidx : (s.record orig r).paths.toList.findIdx? (fun p => p.neighborIdent = src) =
      r.paths.toList.findIdx? fun p => p.neighborIdent = src := by
    have hpaths : (s.record orig r).paths.toList = r.paths.toList.map (s.path orig) := rfl
    rw [hpaths, List.findIdx?_map]
    rfl
  unfold BatmanEngine.learnPath
  rw [hidx]
  cases hfound : r.paths.toList.findIdx? fun p => p.neighborIdent = src with
  | some i =>
    have hmodified : (r.paths.toList.map (s.path orig)).modify i
        (fun p => BatmanEngine.refreshPath p tq (seqno + s.seqno orig) (s.millis nowMs)) =
          (r.paths.toList.modify i fun p =>
            BatmanEngine.refreshPath p tq seqno nowMs).map (s.path orig) := by
      apply modify_map
      intro p hp
      obtain ⟨hi, hsrc, _⟩ := List.findIdx?_eq_some_iff_getElem.mp hfound
      obtain rfl : r.paths.toList[i] = p := (List.getElem_eq_iff hi).mpr hp
      exact s.refreshPath_path (h _ (List.getElem_mem hi) (of_decide_eq_true hsrc))
    unfold record
    dsimp only
    congr 1
    exact BoundedVec.eq_of_toList hmodified
  | none =>
    exact congrArg (fun paths => { s.record orig r with paths := paths })
      (BoundedVec.pushD_map (⟨src, tq, seqno, nowMs, 0⟩ : NeighborStats))

theorem selectNextHop_record {orig src : Mac} {r : OriginatorRecord} {tq : U8}
    {srcProven : Bool} :
    BatmanEngine.selectNextHop (s.record orig r) src tq srcProven =
      s.record orig (BatmanEngine.selectNextHop r src tq srcProven) := by
  unfold BatmanEngine.selectNextHop
  rw [apply_ite (s.record orig), apply_ite (s.record orig), apply_ite (s.record orig)]
  rfl

theorem Comparable.congr {d : U32} {r r' : OriginatorRecord} {src : Mac} {seqno : U32}
    (h : Comparable d r src seqno) (hpaths : r'.paths = r.paths) : Comparable d r' src seqno := by
  unfold Comparable
  rw [hpaths]
  exact h

theorem learnOgm_record {orig src : Mac} {r : OriginatorRecord} {admission : SeqnoAdmission}
    {tq : U8} {seqno : U32} {srcProven : Bool} {nowMs : Millis}
    (h : Comparable (s.seqno orig) r src seqno) :
    BatmanEngine.learnOgm (s.record orig r) admission src tq (seqno + s.seqno orig) srcProven
        (s.millis nowMs) =
      s.record orig (BatmanEngine.learnOgm r admission src tq seqno srcProven nowMs) := by
  have hheard : (if admission.contentsAreCurrent then
      { s.record orig r with lastHeard := s.millis nowMs } else s.record orig r) =
        s.record orig (if admission.contentsAreCurrent then { r with lastHeard := nowMs } else r) := by
    split <;> rfl
  unfold BatmanEngine.learnOgm
  dsimp only
  rw [hheard, learnPath_record, selectNextHop_record]
  apply h.congr
  split <;> rfl

/-- The record of a known originator after its OGM. -/
theorem ogmRecord_record {orig src : Mac} {r : OriginatorRecord} {tq : U8} {seqno : U32}
    {srcProven : Bool}
    (h : (BatmanEngine.admitOgm r false seqno now).2.isStaleCopy = false →
      Comparable (s.seqno orig) r src seqno) :
    BatmanEngine.ogmRecord (s.record orig r) false srcProven (s.instant now) src tq
        (seqno + s.seqno orig) =
      (s.record orig (BatmanEngine.ogmRecord r false srcProven now src tq seqno).1,
        (BatmanEngine.ogmRecord r false srcProven now src tq seqno).2) := by
  have hadmitted : BatmanEngine.admitOgm (s.record orig r) false (seqno + s.seqno orig)
      (s.instant now) = (s.record orig (BatmanEngine.admitOgm r false seqno now).1,
        (BatmanEngine.admitOgm r false seqno now).2) := by
    unfold BatmanEngine.admitOgm
    have hjudged := s.admitSeqno_highWater now SeqnoBands.ogm (s.seqno orig) r.toHighWater seqno
    dsimp only
    rw [if_neg (by decide), if_neg (by decide)]
    exact congrArg (fun j : HighWater × SeqnoAdmission =>
      (({ s.record orig r with toHighWater := j.1 } : OriginatorRecord), j.2)) hjudged
  have hpaths : (BatmanEngine.admitOgm r false seqno now).1.paths = r.paths := rfl
  unfold BatmanEngine.ogmRecord
  rw [hadmitted, fromDuration_instant]
  dsimp only
  cases hstale : (BatmanEngine.admitOgm r false seqno now).2.isStaleCopy with
  | true => rfl
  | false =>
    simp only [Bool.false_eq_true, if_false]
    rw [learnOgm_record s ((h hstale).congr hpaths)]

/-- The record a first sighting starts from. -/
def blankRecord (orig : Mac) (nowMs : Millis) : OriginatorRecord where
  lastSeqno := 0
  resyncWatch := none
  lastHeard := nowMs
  neighborIdent := orig
  bestNextHop := none
  maxTq := 0
  paths := .empty

/-- The table with room made for one more. -/
def madeRoom (table : IndexMap Mac OriginatorRecord c.maxOriginators) (nowMs : Millis) :
    IndexMap Mac OriginatorRecord c.maxOriginators :=
  if c.maxOriginators ≤ table.len then
    match maxByKey (fun r : OriginatorRecord => nowMs.elapsedSince r.lastHeard) table.values with
    | some oldest => table.remove oldest.neighborIdent
    | none => table
  else table

theorem madeRoom_mapEntries (table : IndexMap Mac OriginatorRecord c.maxOriginators)
    (nowMs : Millis) :
    madeRoom (table.mapEntries s.record) (s.millis nowMs) =
      (madeRoom table nowMs).mapEntries s.record := by
  have hvalues : (table.mapEntries s.record).values =
      table.entries.map fun p => s.record p.1 p.2 := by
    simp [IndexMap.values, IndexMap.mapEntries, Function.comp_def]
  have hold : maxByKey (fun r : OriginatorRecord => nowMs.elapsedSince r.lastHeard) table.values =
      (maxByKey (fun p : Mac × OriginatorRecord => nowMs.elapsedSince p.2.lastHeard)
        table.entries).map Prod.snd := maxByKey_map (fun _ => rfl) _
  have hnew : maxByKey (fun r : OriginatorRecord => (s.millis nowMs).elapsedSince r.lastHeard)
      (table.mapEntries s.record).values =
        (maxByKey (fun p : Mac × OriginatorRecord => nowMs.elapsedSince p.2.lastHeard)
          table.entries).map fun p => s.record p.1 p.2 := by
    rw [hvalues]
    apply maxByKey_map
    intro p
    exact s.elapsedSince_millis _ _
  unfold madeRoom
  rw [IndexMap.len_mapEntries, hold, hnew]
  split
  · cases maxByKey (fun p : Mac × OriginatorRecord => nowMs.elapsedSince p.2.lastHeard)
      table.entries with
    | none => rfl
    | some oldest => exact IndexMap.remove_mapEntries _
  · rfl

theorem acceptOgm_new (localQuality : Option U8) (replyLen : Nat) (ogm : BatmanOgmPacket)
    (tail : Bytes) (hnew : e.originatorTable.contains ogm.orig = false) :
    e.acceptOgm now f localQuality replyLen ogm tail =
      let room := madeRoom e.originatorTable (Millis.fromDuration now)
      let tq := BatmanEngine.computedTq ogm.tq localQuality
      let r := BatmanEngine.ogmRecord (blankRecord ogm.orig (Millis.fromDuration now)) true
        (e.proofCurrent now f.src) now f.src tq ogm.seqno.get
      if room.contains ogm.orig = true ∨ room.len < c.maxOriginators then
        (e.withTable (room.insertD ogm.orig r.1)).finishOgm now f replyLen ogm tail tq true r.2
      else (e.withTable room, none) := by
  have hensured : e.ensureOriginator now ogm.orig =
      e.withTable ((madeRoom e.originatorTable (Millis.fromDuration now)).insertD ogm.orig
        (blankRecord ogm.orig (Millis.fromDuration now))) := by
    unfold BatmanEngine.ensureOriginator
    rw [if_neg (by rw [hnew]; decide)]
    rfl
  unfold BatmanEngine.acceptOgm
  rw [hensured, hnew]
  dsimp only [BatmanEngine.withTable, Bool.not_false]
  rw [IndexMap.get?_insertD_self]
  by_cases hroom : (madeRoom e.originatorTable (Millis.fromDuration now)).contains ogm.orig = true ∨
      (madeRoom e.originatorTable (Millis.fromDuration now)).len < c.maxOriginators
  · rw [if_pos hroom, if_pos hroom]
    dsimp only
    rw [IndexMap.modify_insertD]
    rfl
  · rw [if_neg hroom, if_neg hroom, IndexMap.insertD_of_full hroom]

theorem ogmRecord_blank {orig src : Mac} {tq : U8} {seqno : U32} {srcProven : Bool} :
    BatmanEngine.ogmRecord (blankRecord orig (s.millis (Millis.fromDuration now))) true srcProven
        (s.instant now) src tq (seqno + s.seqno orig) =
      (s.record orig (BatmanEngine.ogmRecord (blankRecord orig (Millis.fromDuration now)) true
        srcProven now src tq seqno).1, .advanced) := by
  have hcomparable : Comparable (s.seqno orig)
      { blankRecord orig (Millis.fromDuration now) with lastSeqno := seqno } src seqno :=
    fun p hp => nomatch hp
  have hlearned := @learnOgm_record s orig src
    { blankRecord orig (Millis.fromDuration now) with lastSeqno := seqno } .advanced tq seqno
    srcProven (Millis.fromDuration now) hcomparable
  unfold BatmanEngine.ogmRecord
  rw [fromDuration_instant]
  exact congrArg (fun r => (r, SeqnoAdmission.advanced)) hlearned

variable {localQuality : Option U8} {replyLen : Nat}

/-- An OGM with another number. -/
def withSeqno (p : BatmanOgmPacket) (n : Be32) : BatmanOgmPacket := { p with seqno := n }

/-- An OGM under its originator's new number. -/
def ogm (p : BatmanOgmPacket) : BatmanOgmPacket :=
  withSeqno p (Be32.ofU32 (p.seqno.get + s.seqno p.orig))

-- These two hold for every number, so that no bytes of a number are ever compared.
theorem withSeqno_ttl (p : BatmanOgmPacket) (n : Be32) : (withSeqno p n).ttl = p.ttl := rfl

theorem withSeqno_orig (p : BatmanOgmPacket) (n : Be32) : (withSeqno p n).orig = p.orig := rfl

theorem withSeqno_tq (p : BatmanOgmPacket) (n : Be32) : (withSeqno p n).tq = p.tq := rfl

theorem withSeqno_tail (p : BatmanOgmPacket) (n : Be32) (rest : Bytes) :
    BatmanEngine.ogmTail? (withSeqno p n) rest = BatmanEngine.ogmTail? p rest := by
  have hlen : (withSeqno p n).tvlvLen = p.tvlvLen := rfl
  unfold BatmanEngine.ogmTail?
  rw [hlen]

theorem withSeqno_outbound (p : BatmanOgmPacket) (n : Be32) (tq : U8) (len : Be16) :
    { withSeqno p n with ttl := (withSeqno p n).ttl - 1, tq := tq, tvlvLen := len } =
      withSeqno { p with ttl := p.ttl - 1, tq := tq, tvlvLen := len } n := rfl

theorem ogm_outbound (p : BatmanOgmPacket) (tq : U8) (len : Be16) :
    { s.ogm p with ttl := (s.ogm p).ttl - 1, tq := tq, tvlvLen := len } =
      s.ogm { p with ttl := p.ttl - 1, tq := tq, tvlvLen := len } :=
  withSeqno_outbound _ _ _ _

theorem get_ogm_seqno (p : BatmanOgmPacket) : (s.ogm p).seqno.get = p.seqno.get + s.seqno p.orig :=
  Be32.get_ofU32 _

theorem sent_ogm (p : BatmanOgmPacket) (rest : Bytes) (dst : Mac) (protocol : U16)
    (h : p.packetType = BatmanPacketType.ogm.asU8) :
    s.sent ⟨dst, protocol, p.asBytes ++ rest⟩ = ⟨dst, protocol, (s.ogm p).asBytes ++ rest⟩ :=
  congrArg (LinkFrameData.mk dst protocol) (s.payload_asBytes p rest h)

theorem countOgmAdmission_engine (admission : SeqnoAdmission) (ttl : U8) :
    (s.engine e).countOgmAdmission admission ttl = s.engine (e.countOgmAdmission admission ttl) := by
  have hcount : (if admission.isResynchronised then
      { s.engine e with seqnoResyncs := saturatingAdd e.seqnoResyncs 1 } else s.engine e) =
        s.engine (if admission.isResynchronised then
          { e with seqnoResyncs := saturatingAdd e.seqnoResyncs 1 } else e) := by
    split <;> rfl
  have hsame : (s.engine e).seqnoResyncs = e.seqnoResyncs := rfl
  unfold BatmanEngine.countOgmAdmission
  rw [hsame, hcount]
  generalize (if admission.isResynchronised then
    { e with seqnoResyncs := saturatingAdd e.seqnoResyncs 1 } else e) = e₁
  dsimp only
  split <;> rfl

theorem refloodOgm_engine {p : BatmanOgmPacket} {tail : Bytes} {tq : U8} {src : Mac}
    (htype : p.packetType = BatmanPacketType.ogm.asU8) :
    (s.engine e).refloodOgm (s.ogm p) tail tq src replyLen =
      (s.engine (e.refloodOgm p tail tq src replyLen).1,
        (e.refloodOgm p tail tq src replyLen).2.map s.sent) := by
  unfold BatmanEngine.refloodOgm
  cases stampedLen tail with
  | none => rfl
  | some outTvlvLen =>
    dsimp only
    generalize (if BatmanOgmPacket.size + outTvlvLen ≤ replyLen then _ else none) = stamped
    cases stamped with
    | none => rfl
    | some stampedTail =>
      dsimp only [Option.map_some]
      rw [ogm_outbound, sent_ogm]
      exact htype
theorem updateMcastMembership_engine (orig : Mac) :
    (s.engine e).updateMcastMembership orig f = s.engine (e.updateMcastMembership orig f) := rfl

theorem latchTopology_engine (isNew : Bool) :
    (s.engine e).latchTopology isNew = s.engine (e.latchTopology isNew) := by
  unfold BatmanEngine.latchTopology
  cases isNew <;> rfl

theorem updateMcastMembership_congr {f' : LinkFrame} (orig : Mac)
    (h : f'.payload.drop BatmanOgmPacket.size = f.payload.drop BatmanOgmPacket.size) :
    e.updateMcastMembership orig f' = e.updateMcastMembership orig f := by
  unfold BatmanEngine.updateMcastMembership
  simp only [h]

/-- What follows the number of an OGM stays. -/
theorem tail_frame {p : BatmanOgmPacket} {rest : Bytes}
    (htype : p.packetType = BatmanPacketType.ogm.asU8)
    (hread : BatmanOgmPacket.readFromPrefix f.payload = some (p, rest)) :
    (s.frame f).payload.drop BatmanOgmPacket.size = f.payload.drop BatmanOgmPacket.size := by
  have hlen : ∀ q : BatmanOgmPacket, q.asBytes.length = BatmanOgmPacket.size := fun _ => rfl
  have hbytes := BatmanOgmPacket.asBytes_of_readFromPrefix hread
  unfold frame
  dsimp only
  rw [hbytes, payload_asBytes s p rest htype, ← hlen p, List.drop_left, hlen p,
    List.drop_left' (hlen _)]

theorem finishOgm_engine {p : BatmanOgmPacket} {rest tail : Bytes} {tq : U8} {isNew : Bool}
    {admission : SeqnoAdmission} (htype : p.packetType = BatmanPacketType.ogm.asU8)
    (hread : BatmanOgmPacket.readFromPrefix f.payload = some (p, rest)) :
    (s.engine e).finishOgm (s.instant now) (s.frame f) replyLen (s.ogm p) tail tq isNew admission =
      (s.engine (e.finishOgm now f replyLen p tail tq isNew admission).1,
        (e.finishOgm now f replyLen p tail tq isNew admission).2.map s.sent) := by
  have httl : (s.ogm p).ttl = p.ttl := withSeqno_ttl _ _
  have horig : (s.ogm p).orig = p.orig := withSeqno_orig _ _
  have hsrc : (s.frame f).src = f.src := rfl
  unfold BatmanEngine.finishOgm
  rw [httl, horig, hsrc, countOgmAdmission_engine]
  generalize e.countOgmAdmission admission p.ttl = e₁
  dsimp only
  split
  · rw [applyTopologyChange_engine]
    rfl
  · have hcurrent : (if admission.contentsAreCurrent then
        (s.engine e₁).updateMcastMembership p.orig (s.frame f) else s.engine e₁) =
          s.engine (if admission.contentsAreCurrent then e₁.updateMcastMembership p.orig f
            else e₁) := by
      rw [apply_ite s.engine,
        updateMcastMembership_congr _ f p.orig (s.tail_frame f htype hread)]
      rfl
    rw [hcurrent, latchTopology_engine]
    split
    · rw [refloodOgm_engine s _ htype, applyTopologyChange_engine]
    · rw [applyTopologyChange_engine]
      rfl

/-- The record of a known originator after its OGM. -/
def learned (r : OriginatorRecord) (localQuality : Option U8) (p : BatmanOgmPacket) :
    OriginatorRecord × SeqnoAdmission :=
  BatmanEngine.ogmRecord r false (e.proofCurrent now f.src) now f.src
    (BatmanEngine.computedTq p.tq localQuality) p.seqno.get

theorem acceptOgm_known {p : BatmanOgmPacket} {tail : Bytes} {r : OriginatorRecord}
    (hget : e.originatorTable.get? p.orig = some r) :
    e.acceptOgm now f localQuality replyLen p tail =
      (e.withTable (e.originatorTable.modify p.orig fun _ =>
        (learned e now f r localQuality p).1)).finishOgm now f replyLen p tail
          (BatmanEngine.computedTq p.tq localQuality) false
          (learned e now f r localQuality p).2 := by
  have hknown : e.originatorTable.contains p.orig = true := by
    rw [IndexMap.contains_eq_isSome, hget]
    rfl
  have hensured : e.ensureOriginator now p.orig = e := by
    unfold BatmanEngine.ensureOriginator
    rw [if_pos hknown]
  unfold BatmanEngine.acceptOgm
  rw [hensured, hknown]
  dsimp only
  rw [hget]
  rfl

theorem withTable_engine (table : IndexMap Mac OriginatorRecord c.maxOriginators) :
    (s.engine e).withTable (table.mapEntries s.record) = s.engine (e.withTable table) := rfl

-- The components of a pair of engine states are read off through these two, so that the
-- states themselves are not compared.
theorem fst_of_eq_mk {α β : Type} {x : α × β} {a : α} {b : β} (h : x = (a, b)) : x.1 = a := by
  rw [h]

theorem snd_of_eq_mk {α β : Type} {x : α × β} {a : α} {b : β} (h : x = (a, b)) : x.2 = b := by
  rw [h]

section Learned
variable {p : BatmanOgmPacket} {r : OriginatorRecord}
  (h : (BatmanEngine.admitOgm r false p.seqno.get now).2.isStaleCopy = false →
    Comparable (s.seqno p.orig) r f.src p.seqno.get)
include h

theorem learned_engine :
    learned (s.engine e) (s.instant now) (s.frame f) (s.record p.orig r) localQuality (s.ogm p) =
      (s.record p.orig (learned e now f r localQuality p).1,
        (learned e now f r localQuality p).2) := by
  have htq : (s.ogm p).tq = p.tq := withSeqno_tq _ _
  have hsrc : (s.frame f).src = f.src := rfl
  unfold learned
  rw [htq, hsrc, get_ogm_seqno, proofCurrent_engine, ogmRecord_record s now h]

theorem learned_record :
    (learned (s.engine e) (s.instant now) (s.frame f) (s.record p.orig r) localQuality
      (s.ogm p)).1 = s.record p.orig (learned e now f r localQuality p).1 :=
  fst_of_eq_mk (s.learned_engine e now f h)

theorem learned_admission :
    (learned (s.engine e) (s.instant now) (s.frame f) (s.record p.orig r) localQuality
      (s.ogm p)).2 = (learned e now f r localQuality p).2 :=
  snd_of_eq_mk (s.learned_engine e now f h)

end Learned

theorem acceptOgm_engine {p : BatmanOgmPacket} {rest tail : Bytes}
    (htype : p.packetType = BatmanPacketType.ogm.asU8)
    (hread : BatmanOgmPacket.readFromPrefix f.payload = some (p, rest))
    (h : ∀ r, e.originatorTable.get? p.orig = some r →
      (BatmanEngine.admitOgm r false p.seqno.get now).2.isStaleCopy = false →
        Comparable (s.seqno p.orig) r f.src p.seqno.get) :
    (s.engine e).acceptOgm (s.instant now) (s.frame f) localQuality replyLen (s.ogm p) tail =
      (s.engine (e.acceptOgm now f localQuality replyLen p tail).1,
        (e.acceptOgm now f localQuality replyLen p tail).2.map s.sent) := by
  have horig : (s.ogm p).orig = p.orig := withSeqno_orig _ _
  have htq : (s.ogm p).tq = p.tq := withSeqno_tq _ _
  have hsrc : (s.frame f).src = f.src := rfl
  have htable : (s.engine e).originatorTable = e.originatorTable.mapEntries s.record := rfl
  cases hget : e.originatorTable.get? p.orig with
  | none =>
    have hnew : e.originatorTable.contains p.orig = false := by
      rw [IndexMap.contains_eq_isSome, hget]
      rfl
    have hnew' : (s.engine e).originatorTable.contains (s.ogm p).orig = false := by
      rw [htable, horig, IndexMap.contains_mapEntries, hnew]
    have hadvanced : ∀ srcProven tq, (BatmanEngine.ogmRecord
        (blankRecord p.orig (Millis.fromDuration now)) true srcProven now f.src tq
          p.seqno.get).2 = .advanced := fun _ _ => rfl
    rw [acceptOgm_new _ _ _ _ _ _ _ hnew, acceptOgm_new _ _ _ _ _ _ _ hnew']
    dsimp only
    rw [htable, fromDuration_instant, madeRoom_mapEntries, horig, htq, hsrc, get_ogm_seqno,
      proofCurrent_engine, ogmRecord_blank, IndexMap.len_mapEntries,
      IndexMap.contains_mapEntries, hadvanced]
    split
    · rw [IndexMap.insertD_mapEntries, withTable_engine, finishOgm_engine s _ _ _ htype hread]
    · rw [withTable_engine]
      rfl
  | some r =>
    have hget' : (s.engine e).originatorTable.get? (s.ogm p).orig = some (s.record p.orig r) := by
      rw [htable, horig, IndexMap.get?_mapEntries, hget]
      rfl
    have hmodify : ∀ learned, (e.originatorTable.mapEntries s.record).modify p.orig
        (fun _ => s.record p.orig learned) =
          (e.originatorTable.modify p.orig fun _ => learned).mapEntries s.record :=
      fun learned => IndexMap.modify_mapEntries _ fun _ => rfl
    rw [acceptOgm_known _ _ _ hget, acceptOgm_known _ _ _ hget', htable, horig, htq,
      learned_record s e now f (h r hget), learned_admission s e now f (h r hget), hmodify,
      withTable_engine, finishOgm_engine s _ _ _ htype hread]

/-- The number of an OGM past every guard compares with the one on its path as it did. -/
def ComparableOgm : Prop :=
  ∀ p tail r, e.acceptedOgm? f = some (p, tail) → e.originatorTable.get? p.orig = some r →
    (BatmanEngine.admitOgm r false p.seqno.get now).2.isStaleCopy = false →
      Comparable (s.seqno p.orig) r f.src p.seqno.get

theorem handleOgm_engine (hsub : BatmanEngine.rxSubtype f = some (some .ogm))
    (h : s.ComparableOgm e now f) :
    (s.engine e).handleOgm (s.instant now) (s.frame f) localQuality replyLen =
      (s.engine (e.handleOgm now f localQuality replyLen).1,
        (e.handleOgm now f localQuality replyLen).2.map s.sent) := by
  unfold BatmanEngine.handleOgm
  cases hread : BatmanOgmPacket.readFromPrefix f.payload with
  | none =>
    have hsame : s.frame f = f := by
      unfold frame payload
      rw [hread]
    rw [hsame, hread]
    rfl
  | some r =>
    obtain ⟨p, rest⟩ := r
    have hbytes := BatmanOgmPacket.asBytes_of_readFromPrefix hread
    have htype : p.packetType = BatmanPacketType.ogm.asU8 := by
      obtain ⟨_, more, htags⟩ := BatmanEngine.payload_of_rxSubtype hsub
      rw [hbytes] at htags
      exact (List.cons.inj htags).1
    have hread' : BatmanOgmPacket.readFromPrefix (s.frame f).payload = some (s.ogm p, rest) := by
      have hpayload := s.payload_asBytes p rest htype
      rw [← hbytes] at hpayload
      unfold frame
      dsimp only
      rw [hpayload]
      exact BatmanOgmPacket.readFromPrefix_asBytes _ _
    have horig : (s.ogm p).orig = p.orig := withSeqno_orig _ _
    have htail : BatmanEngine.ogmTail? (s.ogm p) rest = BatmanEngine.ogmTail? p rest :=
      withSeqno_tail _ _ _
    rw [hread']
    dsimp only
    rw [horig, selfIdent_engine, htail]
    split
    · rfl
    · rename_i hself
      cases hclaim : BatmanEngine.ogmTail? p rest with
      | none => rfl
      | some tail =>
        dsimp only
        split
        · rfl
        · rename_i hprev
          apply acceptOgm_engine s e now f htype hread
          intro r hget hstale
          apply h p tail r _ hget hstale
          unfold BatmanEngine.acceptedOgm?
          rw [if_pos hsub, hread]
          dsimp only
          rw [if_neg hself, hclaim]
          exact if_neg hprev

/-! Flooded broadcasts, whose numbers stay. -/

theorem admitEntry_broadcastEntry (b : BroadcastSeqnoEntry) (seqno : U32) :
    (s.broadcastEntry b).admitEntry seqno (s.instant now) =
      (s.broadcastEntry (b.admitEntry seqno now).1, (b.admitEntry seqno now).2) := by
  have hjudged := s.admitSeqno_highWater now SeqnoBands.broadcast 0 b.toHighWater seqno
  rw [add_zero] at hjudged
  have hstamp : ∀ written : Bool, (if written then s.millis (Millis.fromDuration now)
      else s.millis b.lastUpdated) =
        s.millis (if written then Millis.fromDuration now else b.lastUpdated) := by
    intro written
    cases written <;> rfl
  unfold BroadcastSeqnoEntry.admitEntry
  rw [fromDuration_instant]
  simp only [broadcastEntry, hjudged, hstamp]

theorem broadcastSeqno_engine :
    (s.engine e).broadcastSeqno = e.broadcastSeqno.mapEntries fun _ => s.broadcastEntry := rfl

/-- What the verdict on a number of a known source does. -/
def judgedBroadcast (orig : Mac) (entry : BroadcastSeqnoEntry) (admission : SeqnoAdmission) :
    BatmanEngine c × Bool :=
  let e := { e with
    broadcastSeqno := e.broadcastSeqno.modify orig fun _ => entry
    seqnoResyncs := if admission.isResynchronised then saturatingAdd e.seqnoResyncs 1
      else e.seqnoResyncs }
  if admission.isAdvanced then (e, true)
  else
    match admission with
    | .duplicate _ => (e, false)
    | _ => ({ e with broadcastSeqnoRefusals := saturatingAdd e.broadcastSeqnoRefusals 1 }, false)

theorem judgedBroadcast_engine (orig : Mac) (entry : BroadcastSeqnoEntry)
    (admission : SeqnoAdmission) :
    judgedBroadcast (s.engine e) orig (s.broadcastEntry entry) admission =
      (s.engine (judgedBroadcast e orig entry admission).1,
        (judgedBroadcast e orig entry admission).2) := by
  have hmodify : (e.broadcastSeqno.mapEntries fun _ => s.broadcastEntry).modify orig
      (fun _ => s.broadcastEntry entry) =
        (e.broadcastSeqno.modify orig fun _ => entry).mapEntries fun _ => s.broadcastEntry :=
    IndexMap.modify_mapEntries (fun _ => s.broadcastEntry) fun _ => rfl
  unfold judgedBroadcast
  rw [broadcastSeqno_engine, hmodify]
  cases admission with
  | resynchronised verdict => cases verdict <;> rfl
  | _ => rfl

/-- The tables with room made for one more source. -/
def madeBroadcastRoom (nowMs : Millis) : BatmanEngine c :=
  if c.maxOriginators ≤ e.broadcastSeqno.len then
    match maxByKey (fun s : Mac × BroadcastSeqnoEntry => nowMs.elapsedSince s.2.lastUpdated)
        e.broadcastSeqno.entries with
    | some evicted =>
      { e with
        broadcastSeqno := e.broadcastSeqno.remove evicted.1
        broadcastDedupEvictions := saturatingAdd e.broadcastDedupEvictions 1 }
    | none => e
  else e

theorem madeBroadcastRoom_engine (nowMs : Millis) :
    madeBroadcastRoom (s.engine e) (s.millis nowMs) = s.engine (madeBroadcastRoom e nowMs) := by
  have holdest : maxByKey (fun b : Mac × BroadcastSeqnoEntry =>
      (s.millis nowMs).elapsedSince b.2.lastUpdated) (s.engine e).broadcastSeqno.entries =
        (maxByKey (fun b : Mac × BroadcastSeqnoEntry => nowMs.elapsedSince b.2.lastUpdated)
          e.broadcastSeqno.entries).map fun b => (b.1, s.broadcastEntry b.2) := by
    apply maxByKey_map
    intro b
    exact s.elapsedSince_millis _ _
  have hlen : (s.engine e).broadcastSeqno.len = e.broadcastSeqno.len := IndexMap.len_mapEntries _
  have hremove : ∀ mac, (s.engine e).broadcastSeqno.remove mac =
      (e.broadcastSeqno.remove mac).mapEntries fun _ => s.broadcastEntry :=
    fun mac => IndexMap.remove_mapEntries _
  unfold madeBroadcastRoom
  rw [hlen, holdest]
  split
  · cases maxByKey (fun b : Mac × BroadcastSeqnoEntry => nowMs.elapsedSince b.2.lastUpdated)
      e.broadcastSeqno.entries with
    | none => rfl
    | some oldest =>
      rw [Option.map_some]
      dsimp only
      rw [hremove]
      rfl
  · rfl

theorem admitBroadcast_eq (orig : Mac) (seqno : U32) :
    e.admitBroadcast now orig seqno =
      match e.broadcastSeqno.get? orig with
      | some entry =>
        judgedBroadcast e orig (entry.admitEntry seqno now).1 (entry.admitEntry seqno now).2
      | none =>
        match (madeBroadcastRoom e (Millis.fromDuration now)).broadcastSeqno.insert orig
            (BroadcastSeqnoEntry.seeded seqno now) with
        | some table =>
          ({ madeBroadcastRoom e (Millis.fromDuration now) with broadcastSeqno := table }, true)
        | none => (madeBroadcastRoom e (Millis.fromDuration now), false) := rfl

theorem seeded_broadcastEntry (seqno : U32) :
    BroadcastSeqnoEntry.seeded seqno (s.instant now) =
      s.broadcastEntry (BroadcastSeqnoEntry.seeded seqno now) := by
  unfold BroadcastSeqnoEntry.seeded broadcastEntry highWater
  rw [fromDuration_instant, add_zero]
  rfl

theorem admitBroadcast_engine (orig : Mac) (seqno : U32) :
    (s.engine e).admitBroadcast (s.instant now) orig seqno =
      (s.engine (e.admitBroadcast now orig seqno).1, (e.admitBroadcast now orig seqno).2) := by
  have hget : (s.engine e).broadcastSeqno.get? orig =
      (e.broadcastSeqno.get? orig).map s.broadcastEntry := IndexMap.get?_mapEntries _
  rw [admitBroadcast_eq, admitBroadcast_eq, hget]
  cases e.broadcastSeqno.get? orig with
  | some entry =>
    have hjudged := s.admitEntry_broadcastEntry now entry seqno
    rw [Option.map_some]
    dsimp only
    rw [fst_of_eq_mk hjudged, snd_of_eq_mk hjudged, judgedBroadcast_engine]
  | none =>
    rw [Option.map_none]
    dsimp only
    rw [fromDuration_instant, madeBroadcastRoom_engine, seeded_broadcastEntry]
    generalize madeBroadcastRoom e (Millis.fromDuration now) = room
    have hinsert : (s.engine room).broadcastSeqno.insert orig
        (s.broadcastEntry (BroadcastSeqnoEntry.seeded seqno now)) =
          (room.broadcastSeqno.insert orig (BroadcastSeqnoEntry.seeded seqno now)).map
            fun table => table.mapEntries fun _ => s.broadcastEntry :=
      IndexMap.insert_mapEntries fun _ => s.broadcastEntry
    rw [hinsert]
    cases room.broadcastSeqno.insert orig (BroadcastSeqnoEntry.seeded seqno now) with
    | none => rfl
    | some table => rfl

theorem handleBroadcast_engine :
    (s.engine e).handleBroadcast (s.instant now) f replyLen =
      (s.engine (e.handleBroadcast now f replyLen).1, (e.handleBroadcast now f replyLen).2) := by
  unfold BatmanEngine.handleBroadcast
  cases BatmanBroadcastPacket.readFromPrefix f.payload with
  | none => rfl
  | some r =>
    dsimp only
    rw [selfIdent_engine, admitBroadcast_engine]
    generalize e.admitBroadcast now r.1.orig r.1.seqno.get = admitted
    obtain ⟨e₁, fresh⟩ := admitted
    dsimp only
    split
    · rfl
    · split
      · rfl
      · split
        · rfl
        · split <;> rfl

/-! Frames toward one destination. -/

theorem relayToward_engine {dest : Mac} {ttl : U8} {header inner : Bytes} :
    (s.engine e).relayToward (s.instant now) replyLen dest ttl header inner =
      (s.engine (e.relayToward now replyLen dest ttl header inner).1,
        (e.relayToward now replyLen dest ttl header inner).2) := by
  unfold BatmanEngine.relayToward BatmanEngine.stageRelay
  rw [selfIdent_engine, nextHop_engine]
  split
  · rfl
  · split
    · rfl
    · cases e.nextHop now dest with
      | none => rfl
      | some next =>
        dsimp only
        split <;> rfl

theorem handleUnicast_engine :
    (s.engine e).handleUnicast (s.instant now) f replyLen =
      (s.engine (e.handleUnicast now f replyLen).1, (e.handleUnicast now f replyLen).2) := by
  unfold BatmanEngine.handleUnicast
  cases BatmanUnicastPacket.readFromPrefix f.payload with
  | none => rfl
  | some r => exact s.relayToward_engine e now

theorem handleCredentialControl_engine :
    (s.engine e).handleCredentialControl (s.instant now) f replyLen =
      (s.engine (e.handleCredentialControl now f replyLen).1,
        (e.handleCredentialControl now f replyLen).2) := s.handleUnicast_engine e now f

theorem handleEcho_engine :
    (s.engine e).handleEcho (s.instant now) f replyLen =
      (s.engine (e.handleEcho now f replyLen).1, (e.handleEcho now f replyLen).2) := by
  unfold BatmanEngine.handleEcho
  cases BatmanEchoPacket.readFromPrefix f.payload with
  | none => rfl
  | some r => exact s.relayToward_engine e now

/-! Multicast. -/

theorem routeDests_engine (dests : List Mac) :
    (s.engine e).routeDests (s.instant now) dests =
      (s.engine (e.routeDests now dests).1, (e.routeDests now dests).2) := by
  induction dests generalizing e with
  | nil => rfl
  | cons dest dests ih =>
    unfold BatmanEngine.routeDests
    rw [selfIdent_engine, nextHop_engine]
    split
    · exact ih e
    · cases e.nextHop now dest with
      | none =>
        exact ih { e with mcastUnroutableDests := saturatingAdd e.mcastUnroutableDests 1 }
      | some next =>
        dsimp only
        rw [ih e]

theorem emitGroups_engine (ttl : U8) (inner : Bytes) (scratchLen : Nat)
    (routed rest : List (Mac × Mac)) (done : List Mac) (out : FrameSink) :
    BatmanEngine.emitGroups ttl inner scratchLen routed rest done (s.engine e) out =
      (s.engine (BatmanEngine.emitGroups ttl inner scratchLen routed rest done e out).1,
        (BatmanEngine.emitGroups ttl inner scratchLen routed rest done e out).2) := by
  induction rest generalizing e done out with
  | nil => rfl
  | cons p rest ih =>
    unfold BatmanEngine.emitGroups
    split
    · exact ih e done out
    · dsimp only
      cases writeMcast (ttl - 1) .tag ((routed.filter fun q => q.1 = p.1).map Prod.snd) inner
          scratchLen with
      | none => exact ih e.noteRelayOversizeDrop _ out
      | some payload =>
        have hcounted : ∀ taken : Bool, (if taken then s.engine e else
            { s.engine e with mcastEmitOverflows := saturatingAdd e.mcastEmitOverflows 1 }) =
              s.engine (if taken then e else
                { e with mcastEmitOverflows := saturatingAdd e.mcastEmitOverflows 1 }) := by
          intro taken
          cases taken <;> rfl
        have hsame : (s.engine e).mcastEmitOverflows = e.mcastEmitOverflows := rfl
        dsimp only
        rw [hsame, hcounted]
        exact ih _ _ _

theorem handleMcast_engine (out : FrameSink) :
    (s.engine e).handleMcast (s.instant now) f out replyLen =
      (s.engine (e.handleMcast now f out replyLen).1, (e.handleMcast now f out replyLen).2) := by
  unfold BatmanEngine.handleMcast
  cases McastPacketView.parse f.payload with
  | none => rfl
  | some view =>
    dsimp only
    rw [selfIdent_engine, routeDests_engine, emitGroups_engine]
    split
    · rfl
    · split
      · rfl
      · split <;> rfl

/-! Keep-alives. -/

/-- A further sighting of a neighbor that sends keep-alives. -/
def refreshKeepalive (nowMs : Millis) (stats : KeepAliveStats) : KeepAliveStats where
  lastHeard := nowMs
  intervalEstimateMs :=
    BatmanEngine.blendIntervalMs stats.intervalEstimateMs (nowMs.elapsedSince stats.lastHeard)

/-- The table with room made for one more neighbor. -/
def madeKeepaliveRoom {n : Nat} (table : IndexMap Mac KeepAliveStats n) (nowMs : Millis) :
    IndexMap Mac KeepAliveStats n :=
  if n ≤ table.len then
    match maxByKey (fun k : Mac × KeepAliveStats => nowMs.elapsedSince k.2.lastHeard)
        table.entries with
    | some oldest => table.remove oldest.1
    | none => table
  else table

theorem madeKeepaliveRoom_mapEntries {n : Nat} (table : IndexMap Mac KeepAliveStats n)
    (nowMs : Millis) :
    madeKeepaliveRoom (table.mapEntries fun _ => s.keepaliveStats) (s.millis nowMs) =
      (madeKeepaliveRoom table nowMs).mapEntries fun _ => s.keepaliveStats := by
  have holdest : maxByKey (fun k : Mac × KeepAliveStats =>
      (s.millis nowMs).elapsedSince k.2.lastHeard)
        (table.mapEntries fun _ => s.keepaliveStats).entries =
        (maxByKey (fun k : Mac × KeepAliveStats => nowMs.elapsedSince k.2.lastHeard)
          table.entries).map fun k => (k.1, s.keepaliveStats k.2) := by
    apply maxByKey_map
    intro k
    exact s.elapsedSince_millis _ _
  unfold madeKeepaliveRoom
  rw [IndexMap.len_mapEntries, holdest]
  split
  · cases maxByKey (fun k : Mac × KeepAliveStats => nowMs.elapsedSince k.2.lastHeard)
      table.entries with
    | none => rfl
    | some oldest => exact IndexMap.remove_mapEntries _
  · rfl

def withKeepalive (table : IndexMap Mac KeepAliveStats c.maxOriginators) : BatmanEngine c :=
  { e with keepalive := table }

theorem withKeepalive_engine (table : IndexMap Mac KeepAliveStats c.maxOriginators) :
    withKeepalive (s.engine e) (table.mapEntries fun _ => s.keepaliveStats) =
      s.engine (withKeepalive e table) := rfl

theorem noteKeepalive_eq (neighbor : Mac) :
    e.noteKeepalive now neighbor =
      if e.keepalive.contains neighbor then
        withKeepalive e (e.keepalive.modify neighbor (refreshKeepalive (Millis.fromDuration now)))
      else withKeepalive e ((madeKeepaliveRoom e.keepalive (Millis.fromDuration now)).insertD neighbor
        ⟨Millis.fromDuration now, 0⟩) := rfl

theorem noteKeepalive_engine (neighbor : Mac) :
    (s.engine e).noteKeepalive (s.instant now) neighbor =
      s.engine (e.noteKeepalive now neighbor) := by
  have hkeepalive : (s.engine e).keepalive = e.keepalive.mapEntries fun _ => s.keepaliveStats := rfl
  have hinsert := fun table : IndexMap Mac KeepAliveStats c.maxOriginators =>
    IndexMap.insertD_mapEntries (m := table) (k := neighbor) (v := ⟨Millis.fromDuration now, 0⟩)
      fun _ => s.keepaliveStats
  have hmodify : (e.keepalive.mapEntries fun _ => s.keepaliveStats).modify neighbor
      (refreshKeepalive (s.millis (Millis.fromDuration now))) =
        (e.keepalive.modify neighbor (refreshKeepalive (Millis.fromDuration now))).mapEntries
          fun _ => s.keepaliveStats := by
    apply IndexMap.modify_mapEntries
    intro stats
    unfold refreshKeepalive keepaliveStats
    rw [elapsedSince_millis]
  rw [noteKeepalive_eq, noteKeepalive_eq, hkeepalive, IndexMap.contains_mapEntries,
    fromDuration_instant, hmodify, madeKeepaliveRoom_mapEntries, apply_ite s.engine,
    withKeepalive_engine]
  congr 1
  exact congrArg (withKeepalive (s.engine e)) (hinsert _)

theorem handleKeepalive_engine :
    (s.engine e).handleKeepalive (s.instant now) f = s.engine (e.handleKeepalive now f) := by
  have hcontains : (s.engine e).originatorTable.contains f.src =
      e.originatorTable.contains f.src := IndexMap.contains_mapEntries _
  unfold BatmanEngine.handleKeepalive
  rw [hcontains, noteKeepalive_engine, selfIdent_engine]
  cases BatmanKeepAlivePacket.readFromPrefix f.payload with
  | none => rfl
  | some r =>
    dsimp only
    split <;> rfl

theorem routeByDest_engine :
    (s.engine e).routeByDest (s.instant now) f = e.routeByDest now f := by
  unfold BatmanEngine.routeByDest
  rw [selfIdent_engine, nextHop_engine]

end Receipt

/-! ### One frame -/

section Rx
variable (e : BatmanEngine c) (now : Duration) (f : LinkFrame) {localQuality : Option U8}
  {replyLen : Nat} {out : FrameSink}

def rxResult (r : RxResult c) : RxResult c :=
  ⟨s.engine r.engine, r.action, r.reply.map s.sent, r.out⟩

/-- What is relayed keeps its tag, and so its number unless it is an OGM. -/
theorem reply_sent (hother : BatmanEngine.rxSubtype f ≠ some (some .ogm)) :
    (e.handleRx now f localQuality replyLen out).reply.map s.sent =
      (e.handleRx now f localQuality replyLen out).reply := by
  cases hreply : (e.handleRx now f localQuality replyLen out).reply with
  | none => rfl
  | some q =>
    obtain ⟨hrelayed, -⟩ := BatmanEngine.handleRx_relays hreply
    have hhead := hrelayed.head?
    match hsub : BatmanEngine.rxSubtype f with
    | none =>
      unfold BatmanEngine.handleRx at hreply
      rw [hsub] at hreply
      cases hreply
    | some none =>
      unfold BatmanEngine.handleRx at hreply
      rw [hsub] at hreply
      cases hreply
    | some (some type) =>
      have htag : type.asU8 ≠ BatmanPacketType.ogm.asU8 := by
        intro htag
        have htype := congrArg BatmanPacketType.fromU8 htag
        rw [BatmanPacketType.fromU8_asU8, BatmanPacketType.fromU8_asU8] at htype
        exact hother (htype ▸ hsub)
      obtain ⟨-, rest, htags⟩ := BatmanEngine.payload_of_rxSubtype hsub
      rw [htags, List.head?_cons] at hhead
      obtain ⟨rest', hq⟩ := List.head?_eq_some_iff.mp hhead
      rw [Option.map_some]
      unfold sent
      rw [hq, payload_of_tag s htag, ← hq]

/-- A recoded frame does to a recoded engine what the frame did to the engine. -/
theorem handleRx_engine (h : s.ComparableOgm e now f) :
    (s.engine e).handleRx (s.instant now) (s.frame f) localQuality replyLen out =
      s.rxResult (e.handleRx now f localQuality replyLen out) := by
  unfold rxResult
  by_cases hogm : BatmanEngine.rxSubtype f = some (some .ogm)
  · have hhandled := @handleOgm_engine s c e now f localQuality replyLen hogm h
    unfold BatmanEngine.handleRx
    rw [rxSubtype_frame, hogm]
    dsimp only
    rw [fst_of_eq_mk hhandled, snd_of_eq_mk hhandled]
  · rw [reply_sent s e now f hogm]
    cases hsub : BatmanEngine.rxSubtype f with
    | none =>
      unfold BatmanEngine.handleRx
      rw [rxSubtype_frame, hsub]
    | some type =>
      have hother : type ≠ some .ogm := fun htype => hogm (htype ▸ hsub)
      rw [s.frame_of_subtype f hsub hother]
      unfold BatmanEngine.handleRx
      rw [hsub]
      cases type with
      | none =>
        dsimp only
        rw [routeByDest_engine]
      | some type =>
        cases type with
        | ogm => exact absurd rfl hother
        | bcast =>
          dsimp only
          rw [handleBroadcast_engine]
        | unicast =>
          dsimp only
          rw [handleUnicast_engine]
        | mcast =>
          dsimp only
          rw [handleMcast_engine]
        | keepalive =>
          dsimp only
          rw [handleKeepalive_engine]
        | echoRequest =>
          dsimp only
          rw [handleEcho_engine]
        | echoReply =>
          dsimp only
          rw [handleEcho_engine]
        | nextHopChallenge => rfl
        | nextHopResponse => rfl
        | _ =>
          dsimp only
          rw [handleCredentialControl_engine]

end Rx

end Recoding

end Wayfinder
