import Wayfinder.Install
import Wayfinder.Lib.SocketText

/-!
# Where a renewal provider is reached

The address of a renewal provider is checked when it is installed, and parsed when it is
dialed. The check takes the text apart at its last colon; the dialer takes a socket address
first and a name and a port otherwise.
-/

namespace Wayfinder

open SocketText

set_option autoImplicit false

structure NodeAddr where
  host : List Char
  port : Nat
  deriving DecidableEq

namespace NodeAddr

/-- `From<SocketAddr>`. -/
def ofSocketAddr (addr : SocketAddr) : NodeAddr := ⟨addr.ip.toText, addr.port.val⟩

def fromStr (s : String) : Except String NodeAddr :=
  match parseSocketAddr s.toList with
  | some socket => .ok (ofSocketAddr socket)
  | none =>
    match rsplitOnceColon s.toList with
    | none => .error ("'" ++ s ++ "' has no port; expected host:port")
    | some (host, port) =>
      if host = [] then .error ("'" ++ s ++ "' has no host; expected host:port")
      else if ':' ∈ host then
        .error ("'" ++ s ++ "' is ambiguous; bracket an IPv6 literal as [addr]:port")
      else
        match parsePort port with
        | none =>
          .error ("'" ++ String.ofList port ++ "' in '" ++ s ++
            "' is not a port number (0-65535)")
        | some n => .ok ⟨host, n⟩

end NodeAddr

def providerAddr (provider : RenewalProviderData) : Except String NodeAddr :=
  (NodeAddr.fromStr provider.target.address).mapError fun e =>
    "the recorded renewal provider address '" ++ provider.target.address ++
      "' is unusable: " ++ e

/-- An address that is let in can be dialed, as the address of whatever provider. -/
def Dialable (address : String) : Prop :=
  validateProviderAddress address = .ok () → address ≠ "" →
    ∃ addr, NodeAddr.fromStr address = .ok addr ∧ addr.port ≠ 0 ∧
      ∀ provider : RenewalProviderData, provider.target.address = address →
        providerAddr provider = .ok addr

/-! ### The parts of an address -/

section Parts
variable {s : String} {text host port : List Char} {n : Nat}

theorem rsplitOnceColon_of_not_mem (h : ':' ∉ port) :
    rsplitOnceColon (host ++ ':' :: port) = some (host, port) := by
  have hall : ∀ ch ∈ port.reverse, decide (ch ≠ ':') = true := by
    intro ch hch
    apply decide_eq_true
    rintro rfl
    exact h (List.mem_reverse.mp hch)
  have hrev : (host ++ ':' :: port).reverse = port.reverse ++ ':' :: host.reverse := by simp
  have htake : ((host ++ ':' :: port).reverse.takeWhile fun ch => decide (ch ≠ ':')).reverse =
      port := by
    rw [hrev, List.takeWhile_append_of_pos hall, List.takeWhile_cons_of_neg (by simp),
      List.append_nil, List.reverse_reverse]
  unfold rsplitOnceColon
  dsimp only
  have hlength : (host ++ ':' :: port).length - port.length - 1 = host.length := by
    simp only [List.length_append, List.length_cons]
    omega
  rw [htake, if_pos (by simp), hlength, List.take_left]

theorem eq_of_rsplitOnceColon (h : rsplitOnceColon text = some (host, port)) :
    text = host ++ ':' :: port := by
  have hmem : ':' ∈ text := by
    unfold rsplitOnceColon at h
    dsimp only at h
    split at h
    · rename_i hcontains
      exact List.contains_iff_mem.mp hcontains
    · cases h
  obtain ⟨back, front, hsplit, hnot⟩ :=
    List.eq_append_cons_of_mem (List.mem_reverse.mpr hmem)
  have htext : text = front.reverse ++ ':' :: back.reverse := by
    rw [← List.reverse_reverse text, hsplit]
    simp
  have hnot' : ':' ∉ back.reverse := fun hmem => hnot (List.mem_reverse.mp hmem)
  rw [htext, rsplitOnceColon_of_not_mem hnot'] at h
  obtain ⟨rfl, rfl⟩ := Prod.mk.inj (Option.some.inj h)
  exact htext

theorem parsePort_eq (text : List Char) : parsePort text = parseUnsigned 65536 text := by
  have hplus : (if text.head? = some '+' then text.tail else text) = withoutPlus text := by
    cases text with
    | nil => rfl
    | cons ch rest =>
      by_cases hch : ch = '+'
      · rw [hch]
        rfl
      · rw [List.head?_cons, if_neg (fun h => hch (Option.some.inj h))]
        unfold withoutPlus
        split
        · rename_i heq
          exact absurd (List.cons.inj heq).1 hch
        · rfl
  have hfold : ∀ digits : List Char,
      digits.foldl (fun n d => n * 10 + (d.toNat - '0'.toNat)) 0 =
        Nat.ofDigitChars 10 digits 0 := by
    intro digits
    simp only [Nat.ofDigitChars, Nat.mul_comm]
  unfold parsePort parseUnsigned digits?
  dsimp only
  rw [hplus, hfold]
  generalize withoutPlus text = digits
  by_cases hdigits : digits ≠ [] ∧ digits.all Char.isDigit = true
  · rw [if_pos hdigits, if_neg (by simpa using hdigits), Option.filter_some]
    simp only [decide_eq_true_eq]
  · rw [if_neg hdigits, if_pos]
    · rfl
    · cases digits with
      | nil => rfl
      | cons ch rest => simpa [Bool.and_eq_true, imp_iff_not_or] using hdigits

theorem colon_not_mem_port (h : parsePort port = some n) : ':' ∉ port := by
  rw [parsePort_eq] at h
  exact not_mem_of_parseUnsigned h (by decide) (by decide)

theorem validate_iff (hsplit : rsplitOnceColon s.toList = some (host, port)) :
    validateProviderAddress s = .ok () ↔
      host ≠ [] ∧ (':' ∈ host → host.head? = some '[' ∧ host.getLast? = some ']') ∧
        ∃ n, parsePort port = some n ∧ n ≠ 0 := by
  have hs : s.isEmpty = false := by
    rw [← Bool.not_eq_true, String.isEmpty_iff]
    rintro rfl
    cases hsplit
  unfold validateProviderAddress
  rw [hs, hsplit]
  dsimp only
  rw [if_neg Bool.false_ne_true]
  by_cases hhost : host = []
  · simp [hhost]
  · rw [if_neg (by simpa using hhost)]
    by_cases hcolon : ':' ∈ host ∧ ¬(host.head? = some '[' ∧ host.getLast? = some ']')
    · rw [if_pos (by simpa [imp_iff_not_or] using hcolon)]
      constructor
      · intro h
        cases h
      · rintro ⟨_, hbrackets, _⟩
        exact absurd (hbrackets hcolon.1) hcolon.2
    · have hbrackets : ':' ∈ host → host.head? = some '[' ∧ host.getLast? = some ']' :=
        fun hmem => Classical.not_not.mp fun hnot => hcolon ⟨hmem, hnot⟩
      rw [if_neg (by simpa [imp_iff_not_or] using hcolon)]
      cases hport : parsePort port with
      | none => simp
      | some n =>
        cases n with
        | zero => simp
        | succ n => simpa [hhost] using hbrackets

theorem fromStr_split (hsocket : parseSocketAddr s.toList = none)
    (hsplit : rsplitOnceColon s.toList = some (host, port))
    (h : ∃ addr, NodeAddr.fromStr s = .ok addr) : ':' ∉ host := by
  obtain ⟨addr, haddr⟩ := h
  intro hcolon
  unfold NodeAddr.fromStr at haddr
  rw [hsocket, hsplit] at haddr
  dsimp only at haddr
  rw [if_pos hcolon] at haddr
  split at haddr
  · cases haddr
  · cases haddr

theorem fromStr_of_split (hsocket : parseSocketAddr s.toList = none)
    (hsplit : rsplitOnceColon s.toList = some (host, port)) (hhost : host ≠ [])
    (hcolon : ':' ∉ host) (hport : parsePort port = some n) :
    NodeAddr.fromStr s = .ok ⟨host, n⟩ := by
  unfold NodeAddr.fromStr
  rw [hsocket, hsplit]
  dsimp only
  rw [if_neg hhost, if_neg hcolon, hport]

theorem providerAddr_of_fromStr {addr : NodeAddr} (h : NodeAddr.fromStr s = .ok addr)
    (provider : RenewalProviderData) (hp : provider.target.address = s) :
    providerAddr provider = .ok addr := by
  unfold providerAddr
  rw [hp, h]
  rfl

/-- The port of a socket address is what the check reads behind the last colon. -/
theorem split_of_socket {addr : SocketAddr} (h : parseSocketAddr text = some addr) :
    ∃ host port, rsplitOnceColon text = some (host, port) ∧
      parsePort port = some addr.port.val := by
  obtain ⟨front, digits, rfl, hdigits⟩ := parseSocketAddr_port h
  have hport : parsePort digits = some addr.port.val := by
    rw [parsePort_eq, parseUnsigned, withoutPlus_of_digits? hdigits, hdigits,
      Option.filter_some, if_pos (decide_eq_true addr.port.isLt)]
  exact ⟨front, digits, rsplitOnceColon_of_not_mem (colon_not_mem_port hport), hport⟩

theorem bracketed (hhead : host.head? = some '[') (hlast : host.getLast? = some ']')
    (hcolon : ':' ∈ host) : ∃ inside, host = '[' :: inside ++ [']'] ∧ ':' ∈ inside := by
  cases host with
  | nil => cases hhead
  | cons ch rest =>
    obtain rfl := Option.some.inj hhead
    have hrest : ':' ∈ rest := (List.mem_cons.mp hcolon).resolve_left (by decide)
    rw [List.getLast?_cons_of_ne_nil (List.ne_nil_of_mem hrest)] at hlast
    obtain ⟨inside, rfl⟩ := List.getLast?_eq_some_iff.mp hlast
    have hinside : ':' ∈ inside := by
      rcases List.mem_append.mp hrest with hmem | hmem
      · exact hmem
      · exact absurd (List.mem_singleton.mp hmem) (by decide)
    exact ⟨inside, rfl, hinside⟩

end Parts

/-- What the check lets in can be dialed, but for a text in brackets that has a colon in it
and is no socket address. -/
theorem dialable_iff (s : String) :
    Dialable s ↔
      ∀ inside port, s.toList = '[' :: inside ++ ']' :: ':' :: port → ':' ∈ inside →
        (∃ n, parsePort port = some n ∧ n ≠ 0) → parseSocketAddr s.toList ≠ none := by
  constructor
  · rintro h inside port hs hcolon ⟨n, hport, hn⟩ hsocket
    have hassoc : s.toList = ('[' :: inside ++ [']']) ++ ':' :: port := by
      rw [hs]
      simp
    have hsplit : rsplitOnceColon s.toList = some ('[' :: inside ++ [']'], port) := by
      rw [hassoc]
      exact rsplitOnceColon_of_not_mem (colon_not_mem_port hport)
    have hmem : ':' ∈ '[' :: inside ++ [']'] :=
      List.mem_append_left _ (List.mem_cons_of_mem _ hcolon)
    have hvalid := (validate_iff hsplit).mpr
      ⟨by simp, fun _ => ⟨rfl, List.getLast?_concat⟩, n, hport, hn⟩
    have hne : s ≠ "" := by
      rintro rfl
      cases hs
    obtain ⟨addr, haddr, _⟩ := h hvalid hne
    exact fromStr_split hsocket hsplit ⟨addr, haddr⟩ hmem
  · intro h hvalid hs
    cases hsocket : parseSocketAddr s.toList with
    | some addr =>
      obtain ⟨host, port, hsplit, hport⟩ := split_of_socket hsocket
      obtain ⟨_, _, n, hn, hzero⟩ := (validate_iff hsplit).mp hvalid
      obtain rfl := Option.some.inj (hport.symm.trans hn)
      have hdial : NodeAddr.fromStr s = .ok (NodeAddr.ofSocketAddr addr) := by
        unfold NodeAddr.fromStr
        rw [hsocket]
      exact ⟨_, hdial, hzero, providerAddr_of_fromStr hdial⟩
    | none =>
      cases hsplit : rsplitOnceColon s.toList with
      | none =>
        have hempty : s.isEmpty = false := by
          rw [← Bool.not_eq_true, String.isEmpty_iff]
          exact hs
        unfold validateProviderAddress at hvalid
        rw [hempty, hsplit] at hvalid
        cases hvalid
      | some parts =>
        obtain ⟨host, port⟩ := parts
        obtain ⟨hhost, hbrackets, n, hport, hzero⟩ := (validate_iff hsplit).mp hvalid
        have hcolon : ':' ∉ host := by
          intro hmem
          obtain ⟨inside, rfl, hinside⟩ :=
            bracketed (hbrackets hmem).1 (hbrackets hmem).2 hmem
          have hs' := eq_of_rsplitOnceColon hsplit
          rw [List.append_assoc] at hs'
          exact h inside port hs' hinside ⟨n, hport, hzero⟩ hsocket
        have hdial := fromStr_of_split hsocket hsplit hhost hcolon hport
        exact ⟨_, hdial, hzero, providerAddr_of_fromStr hdial⟩

/-- A link-local address with the name of its interface. -/
theorem zone_not_dialable : ¬Dialable "[fe80::1%eth0]:7700" := by
  intro h
  have hsocket : parseSocketAddr "[fe80::1%eth0]:7700".toList = none := by decide +kernel
  have hsplit : rsplitOnceColon "[fe80::1%eth0]:7700".toList =
      some ("[fe80::1%eth0]".toList, "7700".toList) := by decide +kernel
  have hvalid : validateProviderAddress "[fe80::1%eth0]:7700" = .ok () := by
    apply (validate_iff hsplit).mpr
    exact ⟨by decide, fun _ => ⟨by decide, by decide⟩, 7700, by decide, by decide⟩
  obtain ⟨addr, haddr, _⟩ := h hvalid (by decide)
  exact fromStr_split hsocket hsplit ⟨addr, haddr⟩ (by decide)

end Wayfinder
