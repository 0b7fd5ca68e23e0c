import Wayfinder.Link.Media

/-!
# The fragment in advertising data

Advertising data is a row of structures, each behind its own length. One of them carries a
fragment of the mesh. What the scan reads is from the air: a length may be zero or run past
the end, and then nothing behind it is looked at.
-/

namespace Wayfinder.Blue

set_option autoImplicit false

def adTypeManufacturerSpecific : U8 := 0xFF

/-- `MESH_COMPANY_ID`, the tag of this mesh. -/
def meshCompanyId : U16 := 0xFFFF

def maxFragmentLen : Nat := 255 - (adHdrLen - 1)

/-- The buffer afterwards, and how many of its bytes were written. -/
def buildAdStructure (fragment out : Bytes) : Option (Bytes × Nat) :=
  if maxFragmentLen < fragment.length then none
  else
    let total := adHdrLen + fragment.length
    if out.length < total then none
    else
      some ([BitVec.ofNat 8 (adHdrLen - 1 + fragment.length), adTypeManufacturerSpecific,
        meshCompanyId.extractLsb' 0 8, meshCompanyId.extractLsb' 8 8] ++
          (fragment ++ out.drop total), total)

/-- `&bytes[first..last]`, which stops the program outside of the bytes. -/
def slice? (bytes : Bytes) (first last : Nat) : Option Bytes :=
  if first ≤ last ∧ last ≤ bytes.length then some ((bytes.take last).drop first) else none

inductive Scan
  | found (fragment : Bytes)
  | stop
  | next (pos : Nat)

/-- The fragment in the data of a structure, if it carries the tag. -/
def taggedFragment (adType : U8) : Bytes → Option Bytes
  | lo :: hi :: fragment =>
    if adType = adTypeManufacturerSpecific ∧ fromBeBytes hi lo = meshCompanyId then some fragment
    else none
  | _ => none

/-- The body of the loop. Nothing, where it would read out of bounds. -/
def scanStructure (adv : Bytes) (pos : Nat) : Option Scan := do
  let len ← adv[pos]?
  if len.toNat = 0 then some .stop
  else
    let structEnd := pos + 1 + len.toNat
    if adv.length < structEnd then some .stop
    else do
      let adType ← adv[pos + 1]?
      let data ← slice? adv (pos + 2) structEnd
      match taggedFragment adType data with
      | some fragment => some (.found fragment)
      | none => some (.next structEnd)

theorem lt_of_scanStructure {adv : Bytes} {pos pos' : Nat}
    (h : scanStructure adv pos = some (.next pos')) : pos < pos' := by
  unfold scanStructure at h
  obtain ⟨len, _, h⟩ := Option.bind_eq_some_iff.mp h
  split at h
  · cases h
  · dsimp only at h
    split at h
    · cases h
    · obtain ⟨adType, _, h⟩ := Option.bind_eq_some_iff.mp h
      obtain ⟨data, _, h⟩ := Option.bind_eq_some_iff.mp h
      split at h
      · cases h
      · obtain rfl := Scan.next.inj (Option.some.inj h)
        omega

def scanFrom (adv : Bytes) (pos : Nat) : Option (Option Bytes) :=
  if _hpos : pos < adv.length then
    match _hscan : scanStructure adv pos with
    | none => none
    | some (.found fragment) => some (some fragment)
    | some .stop => some none
    | some (.next pos') => scanFrom adv pos'
  else some none
termination_by adv.length - pos
decreasing_by
  have hlt := lt_of_scanStructure _hscan
  omega

def findMeshFragment (adv : Bytes) : Option (Option Bytes) := scanFrom adv 0

/-! ### Structures -/

structure AdStructure where
  adType : U8
  data : Bytes
  fits : data.length + 1 < 256

namespace AdStructure

def asBytes (s : AdStructure) : Bytes := BitVec.ofNat 8 (s.data.length + 1) :: s.adType :: s.data

def fragment? (s : AdStructure) : Option Bytes := taggedFragment s.adType s.data

theorem length_asBytes (s : AdStructure) : s.asBytes.length = s.data.length + 2 := rfl

end AdStructure

open AdStructure

/-- Nothing is left, or no structure that is whole. -/
def Ended (tail : Bytes) : Prop :=
  tail = [] ∨ ∃ len rest, tail = len :: rest ∧ (len = 0 ∨ rest.length < len.toNat)

theorem exists_structures (adv : Bytes) :
    ∃ (structures : List AdStructure) (tail : Bytes),
      adv = structures.flatMap asBytes ++ tail ∧ Ended tail := by
  induction hn : adv.length using Nat.strongRecOn generalizing adv with
  | ind n ih =>
    subst hn
    cases adv with
    | nil => exact ⟨[], [], rfl, Or.inl rfl⟩
    | cons len rest =>
      by_cases hend : len = 0 ∨ rest.length < len.toNat
      · exact ⟨[], len :: rest, rfl, Or.inr ⟨len, rest, rfl, hend⟩⟩
      · rw [not_or, Nat.not_lt] at hend
        obtain ⟨hzero, hlen⟩ := hend
        have hpos : 0 < len.toNat := by
          apply Nat.pos_of_ne_zero
          intro heq
          exact hzero (BitVec.eq_of_toNat_eq heq)
        obtain ⟨adType, rest, rfl⟩ : ∃ adType rest', rest = adType :: rest' := by
          cases rest with
          | nil =>
            rw [List.length_nil] at hlen
            omega
          | cons adType rest => exact ⟨adType, rest, rfl⟩
        rw [List.length_cons] at hlen
        have hdata : (rest.take (len.toNat - 1)).length = len.toNat - 1 := by
          rw [List.length_take]
          omega
        have hlt := len.isLt
        have hshort : (rest.drop (len.toNat - 1)).length < (len :: adType :: rest).length := by
          rw [List.length_drop, List.length_cons, List.length_cons]
          omega
        obtain ⟨structures, tail, heq, htail⟩ := ih _ hshort _ rfl
        refine ⟨⟨adType, rest.take (len.toNat - 1), by omega⟩ :: structures, tail, ?_, htail⟩
        have hsplit : len :: adType :: rest =
            asBytes ⟨adType, rest.take (len.toNat - 1), by omega⟩ ++
              rest.drop (len.toNat - 1) := by
          unfold asBytes
          dsimp only
          rw [hdata, Nat.sub_add_cancel hpos, BitVec.ofNat_toNat, BitVec.setWidth_eq,
            List.cons_append, List.cons_append, List.take_append_drop]
        rw [hsplit, List.flatMap_cons, List.append_assoc, ← heq]

section Scan
variable {front tail : Bytes} {s : AdStructure}

theorem scanFrom_ended (h : Ended tail) : scanFrom (front ++ tail) front.length = some none := by
  rw [scanFrom]
  rcases h with rfl | ⟨len, rest, rfl, hend⟩
  · rw [List.append_nil, dif_neg (Nat.lt_irrefl _)]
  · have hscan : scanStructure (front ++ len :: rest) front.length = some .stop := by
      have hget : (front ++ len :: rest)[front.length]? = some len := by
        rw [List.getElem?_append_right (Nat.le_refl _), Nat.sub_self]
        rfl
      unfold scanStructure
      rw [hget, Option.bind_eq_bind, Option.bind_some]
      rcases hend with rfl | hlen
      · exact if_pos rfl
      · have hpos : len.toNat ≠ 0 := by omega
        have hover : (front ++ len :: rest).length < front.length + 1 + len.toNat := by
          rw [List.length_append, List.length_cons]
          omega
        rw [if_neg hpos]
        exact if_pos hover
    have hpos : front.length < (front ++ len :: rest).length := by
      rw [List.length_append, List.length_cons]
      omega
    rw [dif_pos hpos]
    split
    · rename_i heq
      rw [hscan] at heq
      cases heq
    · rename_i heq
      rw [hscan] at heq
      cases heq
    · rfl
    · rename_i heq
      rw [hscan] at heq
      cases heq

theorem scanStructure_whole : scanStructure (front ++ (s.asBytes ++ tail)) front.length =
    match s.fragment? with
    | some fragment => some (.found fragment)
    | none => some (.next (front ++ s.asBytes).length) := by
  have hfits := s.fits
  have hbytes : s.asBytes ++ tail =
      BitVec.ofNat 8 (s.data.length + 1) :: s.adType :: (s.data ++ tail) := rfl
  have hlen : (BitVec.ofNat 8 (s.data.length + 1)).toNat = s.data.length + 1 := by
    rw [BitVec.toNat_ofNat]
    exact Nat.mod_eq_of_lt hfits
  have hget : (front ++ (s.asBytes ++ tail))[front.length]? =
      some (BitVec.ofNat 8 (s.data.length + 1)) := by
    rw [List.getElem?_append_right (Nat.le_refl _), Nat.sub_self]
    rfl
  have htype : (front ++ (s.asBytes ++ tail))[front.length + 1]? = some s.adType := by
    rw [List.getElem?_append_right (Nat.le_add_right _ _), Nat.add_sub_cancel_left]
    rfl
  have hend : front.length + 1 + (s.data.length + 1) = front.length + (s.data.length + 2) := by
    omega
  have hin : ¬ (front ++ (s.asBytes ++ tail)).length < front.length + (s.data.length + 2) := by
    rw [List.length_append, List.length_append, length_asBytes]
    omega
  have hslice : slice? (front ++ (s.asBytes ++ tail)) (front.length + 2)
      (front.length + (s.data.length + 2)) = some s.data := by
    unfold slice?
    rw [if_pos ⟨by omega, by omega⟩, List.take_length_add_append, hbytes, List.drop_length_add_append,
      List.take_succ_cons, List.take_succ_cons, List.take_left]
    rfl
  unfold scanStructure
  rw [hget, Option.bind_eq_bind, Option.bind_some, hlen, if_neg (Nat.succ_ne_zero _)]
  dsimp only
  rw [hend, if_neg hin, htype, Option.bind_some, hslice, Option.bind_eq_bind, Option.bind_some,
    List.length_append, length_asBytes]
  rfl

theorem pos_lt_whole : front.length < (front ++ (s.asBytes ++ tail)).length := by
  rw [List.length_append, List.length_append, length_asBytes]
  omega

theorem scanFrom_found {fragment : Bytes} (h : s.fragment? = some fragment) :
    scanFrom (front ++ (s.asBytes ++ tail)) front.length = some (some fragment) := by
  have hscan : scanStructure (front ++ (s.asBytes ++ tail)) front.length =
      some (.found fragment) := by
    rw [scanStructure_whole, h]
  rw [scanFrom, dif_pos pos_lt_whole]
  split
  · rename_i heq
    rw [hscan] at heq
    cases heq
  · rename_i heq
    rw [hscan] at heq
    obtain rfl := Scan.found.inj (Option.some.inj heq)
    rfl
  · rename_i heq
    rw [hscan] at heq
    cases heq
  · rename_i heq
    rw [hscan] at heq
    cases heq

theorem scanFrom_next (h : s.fragment? = none) :
    scanFrom (front ++ (s.asBytes ++ tail)) front.length =
      scanFrom (front ++ s.asBytes ++ tail) (front ++ s.asBytes).length := by
  have hscan : scanStructure (front ++ (s.asBytes ++ tail)) front.length =
      some (.next (front ++ s.asBytes).length) := by
    rw [scanStructure_whole, h]
  rw [scanFrom, dif_pos pos_lt_whole]
  split
  · rename_i heq
    rw [hscan] at heq
    cases heq
  · rename_i heq
    rw [hscan] at heq
    cases heq
  · rename_i heq
    rw [hscan] at heq
    cases heq
  · rename_i heq
    rw [hscan] at heq
    obtain rfl := Scan.next.inj (Option.some.inj heq)
    rw [List.append_assoc]

theorem scanFrom_untagged {structures : List AdStructure}
    (h : ∀ s ∈ structures, s.fragment? = none) :
    scanFrom (front ++ (structures.flatMap asBytes ++ tail)) front.length =
      scanFrom (front ++ structures.flatMap asBytes ++ tail)
        (front ++ structures.flatMap asBytes).length := by
  induction structures generalizing front with
  | nil => rw [List.flatMap_nil, List.append_nil, List.nil_append]
  | cons s structures ih =>
    obtain ⟨hs, hrest⟩ := List.forall_mem_cons.mp h
    have hnext : scanFrom (front ++ (s.asBytes ++ (structures.flatMap asBytes ++ tail)))
        front.length = scanFrom (front ++ s.asBytes ++ (structures.flatMap asBytes ++ tail))
          (front ++ s.asBytes).length := scanFrom_next hs
    rw [List.flatMap_cons, List.append_assoc, hnext, ih hrest]
    simp only [List.append_assoc]

end Scan

variable {before structures : List AdStructure} {tail : Bytes}

theorem findMeshFragment_of_tagged {s : AdStructure} {fragment : Bytes}
    (hbefore : ∀ b ∈ before, b.fragment? = none) (hs : s.fragment? = some fragment) :
    findMeshFragment (before.flatMap asBytes ++ (s.asBytes ++ tail)) = some (some fragment) := by
  have hskip : scanFrom ([] ++ (before.flatMap asBytes ++ (s.asBytes ++ tail))) 0 =
      scanFrom ([] ++ before.flatMap asBytes ++ (s.asBytes ++ tail))
        ([] ++ before.flatMap asBytes).length := scanFrom_untagged hbefore
  rw [List.nil_append, List.nil_append] at hskip
  unfold findMeshFragment
  exact hskip.trans (scanFrom_found hs)

theorem findMeshFragment_of_untagged (hstructures : ∀ b ∈ structures, b.fragment? = none)
    (htail : Ended tail) :
    findMeshFragment (structures.flatMap asBytes ++ tail) = some none := by
  have hskip : scanFrom ([] ++ (structures.flatMap asBytes ++ tail)) 0 =
      scanFrom ([] ++ structures.flatMap asBytes ++ tail)
        ([] ++ structures.flatMap asBytes).length := scanFrom_untagged hstructures
  rw [List.nil_append, List.nil_append] at hskip
  unfold findMeshFragment
  exact hskip.trans (scanFrom_ended htail)

theorem findMeshFragment_structures (structures : List AdStructure) (htail : Ended tail) :
    findMeshFragment (structures.flatMap asBytes ++ tail) =
      some (structures.findSome? fragment?) := by
  cases hfind : structures.findSome? fragment? with
  | none => exact findMeshFragment_of_untagged (List.findSome?_eq_none_iff.mp hfind) htail
  | some fragment =>
    obtain ⟨before, s, after, rfl, hs, hbefore⟩ := List.findSome?_eq_some_iff.mp hfind
    rw [List.flatMap_append, List.flatMap_cons, List.append_assoc, List.append_assoc]
    exact findMeshFragment_of_tagged hbefore hs

theorem buildAdStructure_asBytes {fragment out written : Bytes} {total : Nat}
    (h : buildAdStructure fragment out = some (written, total)) :
    ∃ s : AdStructure, s.fragment? = some fragment ∧ written.take total = s.asBytes := by
  unfold buildAdStructure at h
  split at h
  · cases h
  · rename_i hlen
    dsimp only at h
    split at h
    · cases h
    · obtain ⟨rfl, rfl⟩ := Prod.mk.inj (Option.some.inj h)
      have hmax : maxFragmentLen = 252 := rfl
      have hhdr : adHdrLen = 4 := rfl
      refine ⟨⟨adTypeManufacturerSpecific,
        meshCompanyId.extractLsb' 0 8 :: meshCompanyId.extractLsb' 8 8 :: fragment, ?_⟩, ?_, ?_⟩
      · rw [List.length_cons, List.length_cons]
        omega
      · have htag : adTypeManufacturerSpecific = adTypeManufacturerSpecific ∧
            fromBeBytes (meshCompanyId.extractLsb' 8 8) (meshCompanyId.extractLsb' 0 8) =
              meshCompanyId := ⟨rfl, fromBeBytes_extract meshCompanyId⟩
        unfold fragment? taggedFragment
        dsimp only
        rw [if_pos htag]
      · have htotal : adHdrLen + fragment.length = fragment.length + 4 := by omega
        have hfirst : adHdrLen - 1 + fragment.length = fragment.length + 2 + 1 := by omega
        rw [htotal, hfirst]
        change _ :: _ :: _ :: _ :: List.take fragment.length (fragment ++ _) = _
        rw [List.take_left]
        rfl

/-- The scan ends without a read out of bounds, at the first structure with the tag that only
whole structures precede. Such a structure is found whatever stands behind it. -/
theorem findMeshFragment_first (adv : Bytes) :
    (∃ found, findMeshFragment adv = some found) ∧
      (∀ fragment, findMeshFragment adv = some (some fragment) ↔
        ∃ (before : List AdStructure) (s : AdStructure) (rest : Bytes),
          adv = before.flatMap asBytes ++ (s.asBytes ++ rest) ∧
            (∀ b ∈ before, b.fragment? = none) ∧ s.fragment? = some fragment) ∧
      (findMeshFragment adv = some none ↔
        ∃ (structures : List AdStructure) (tail : Bytes),
          adv = structures.flatMap asBytes ++ tail ∧ (∀ b ∈ structures, b.fragment? = none) ∧ Ended tail) ∧
      ∀ fragment out written total, buildAdStructure fragment out = some (written, total) →
        ∀ (before : List AdStructure) (rest : Bytes), (∀ b ∈ before, b.fragment? = none) →
          findMeshFragment (before.flatMap asBytes ++ (written.take total ++ rest)) =
            some (some fragment) := by
  obtain ⟨structures, tail, rfl, htail⟩ := exists_structures adv
  have hfind := findMeshFragment_structures structures htail
  refine ⟨⟨_, hfind⟩, ?_, ?_, ?_⟩
  · intro fragment
    constructor
    · intro h
      rw [hfind] at h
      obtain ⟨before, s, after, rfl, hs, hbefore⟩ :=
        List.findSome?_eq_some_iff.mp (Option.some.inj h)
      refine ⟨before, s, after.flatMap asBytes ++ tail, ?_, hbefore, hs⟩
      rw [List.flatMap_append, List.flatMap_cons, List.append_assoc, List.append_assoc]
    · rintro ⟨before, s, rest, heq, hbefore, hs⟩
      rw [heq]
      exact findMeshFragment_of_tagged hbefore hs
  · constructor
    · intro h
      rw [hfind] at h
      exact ⟨structures, tail, rfl, List.findSome?_eq_none_iff.mp (Option.some.inj h), htail⟩
    · rintro ⟨structures', tail', heq, hstructures, htail'⟩
      rw [heq]
      exact findMeshFragment_of_untagged hstructures htail'
  · intro fragment out written total hbuild before rest hbefore
    obtain ⟨s, hs, hwritten⟩ := buildAdStructure_asBytes hbuild
    rw [hwritten]
    exact findMeshFragment_of_tagged hbefore hs

end Wayfinder.Blue
