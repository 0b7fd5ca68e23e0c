import Wayfinder.Lib.Ring
import Wayfinder.Link.RadioLine

/-!
# The client of the radio module

The module answers commands in lines, and puts lines of its own between them for what it
has received from the air. One reader takes lines off the serial port for both: a line
with a packet goes to a short queue, any other line is looked at by whoever waits.
-/

namespace Wayfinder.Rylr

set_option autoImplicit false

inductive LoraError
  | moduleError (code : I32)
  | invalidResponse
  | requestTooLarge
  deriving DecidableEq

/-- The number of packets that wait for a listener before the oldest is dropped. -/
def rxQueueDepth : Nat := 8

/-- The longest line there is room for. -/
def lineBufLen : Nat := 300

abbrev Line := FixedText lineBufLen

/-- A client. `stream` is what the port has received and nobody has read. -/
structure RylrClient where
  stream : Bytes
  written : List Char
  networkId : U8
  rxQueue : Bounded ReceivedPacket rxQueueDepth

def RylrClient.new : RylrClient := ⟨[], [], 18, .empty⟩

/-- What a read gives; `none` while it waits for more bytes. -/
abbrev Poll (α : Type) := Option (Except LoraError α)

/-- A byte as the character of its number. -/
def byteChar (b : U8) : Char := Char.ofNat b.toNat

/-! ### Lines -/

/-- A line without its end. What has been read of a line that has not ended stays with the
read that waits for the rest. -/
def readLine (line : Line) : Bytes → Poll Line × Bytes
  | [] => (none, [])
  | b :: rest =>
    if byteChar b = '\n' then (some (.ok line), rest)
    else if byteChar b = '\r' then readLine line rest
    else
      match (FixedText.ofText? (line.text ++ [byteChar b]) : Option Line) with
      | some longer => readLine longer rest
      | none => (some (.error .invalidResponse), rest)

theorem readLine_shorter {line line' : Line} {bs rest : Bytes}
    (h : readLine line bs = (some (.ok line'), rest)) : rest.length < bs.length := by
  induction bs generalizing line with
  | nil => cases h
  | cons b bs ih =>
    unfold readLine at h
    rw [List.length_cons]
    split at h
    · obtain ⟨_, rfl⟩ := Prod.mk.inj h
      exact Nat.lt_succ_self _
    · split at h
      · exact Nat.lt_succ_of_lt (ih h)
      · split at h
        · exact Nat.lt_succ_of_lt (ih h)
        · cases h

/-- The next line that is not blank, or `none` for a packet, which has been queued. -/
def nextLine (t : Target) (c : RylrClient) : Poll (Option Line) × RylrClient :=
  match _h : readLine .empty c.stream with
  | (none, rest) => (none, { c with stream := rest })
  | (some (.error e), rest) => (some (.error e), { c with stream := rest })
  | (some (.ok line), rest) =>
    if trim line.text = [] then nextLine t { c with stream := rest }
    else if rcvTag.isPrefixOf (trim line.text) then
      match parseRcv t (trim line.text) with
      | none => (some (.error .invalidResponse), { c with stream := rest })
      | some packet =>
        (some (.ok none),
          { c with stream := rest, rxQueue := (c.rxQueue.pushOut packet).2 })
    else (some (.ok (some line)), { c with stream := rest })
termination_by c.stream.length
decreasing_by exact readLine_shorter ‹_›

theorem nextLine_shorter {t : Target} {c c' : RylrClient} {found : Option Line}
    (h : nextLine t c = (some (.ok found), c')) : c'.stream.length < c.stream.length := by
  induction hn : c.stream.length using Nat.strong_induction_on generalizing c with
  | _ n ih =>
    unfold nextLine at h
    split at h
    · cases h
    · cases h
    · rename_i line rest hread
      have hshorter := readLine_shorter hread
      rw [hn] at hshorter
      split at h
      · exact Nat.lt_trans (ih _ hshorter h rfl) hshorter
      · split at h
        · split at h
          · cases h
          · obtain ⟨_, rfl⟩ := Prod.mk.inj h
            exact hshorter
        · obtain ⟨_, rfl⟩ := Prod.mk.inj h
          exact hshorter

def errTag : List Char := "+ERR=".toList

/-- Wait for the line with the expected beginning, or for an error. -/
def expect (t : Target) (expected : List Char) (c : RylrClient) : Poll Line × RylrClient :=
  match _h : nextLine t c with
  | (none, c') => (none, c')
  | (some (.error e), c') => (some (.error e), c')
  | (some (.ok none), c') => expect t expected c'
  | (some (.ok (some line)), c') =>
    if expected.isPrefixOf (trim line.text) then (some (.ok line), c')
    else if errTag.isPrefixOf (trim line.text) then (some (.error (.moduleError 0)), c')
    else expect t expected c'
termination_by c.stream.length
decreasing_by
  · exact nextLine_shorter ‹_›
  · exact nextLine_shorter ‹_›

/-! ### Packets -/

/-- Take the packet that has waited longest. -/
def RylrClient.popPacket (c : RylrClient) : Option (ReceivedPacket × RylrClient) :=
  match h : c.rxQueue.toList with
  | [] => none
  | packet :: rest =>
    some (packet, { c with rxQueue := ⟨rest, by
      have hle := c.rxQueue.length_le
      rw [h, List.length_cons] at hle
      omega⟩ })

def awaitPacket (t : Target) (c : RylrClient) : Poll ReceivedPacket × RylrClient :=
  match _h : nextLine t c with
  | (none, c') => (none, c')
  | (some (.error e), c') => (some (.error e), c')
  | (some (.ok none), c') =>
    match c'.popPacket with
    | some (packet, c') => (some (.ok packet), c')
    -- The `unreachable!` of the source: a packet was queued just above.
    | none => (none, c')
  | (some (.ok (some _)), c') => awaitPacket t c'
termination_by c.stream.length
decreasing_by exact nextLine_shorter ‹_›

def listenForPacket (t : Target) (c : RylrClient) : Poll ReceivedPacket × RylrClient :=
  match c.popPacket with
  | some (packet, c) => (some (.ok packet), c)
  | none => awaitPacket t c

/-! ### Commands -/

inductive WirelessMode
  | transceiver
  | sleep
  | smartReceiving
  deriving DecidableEq

def WirelessMode.code : WirelessMode → Nat
  | transceiver => 0
  | sleep => 1
  | smartReceiving => 2

inductive SpreadingFactory
  | sf5 | sf6 | sf7 | sf8 | sf9 | sf10 | sf11
  deriving DecidableEq

def SpreadingFactory.code : SpreadingFactory → Nat
  | sf5 => 5
  | sf6 => 6
  | sf7 => 7
  | sf8 => 8
  | sf9 => 9
  | sf10 => 10
  | sf11 => 11

inductive Bandwidth
  | khz125 | khz250 | khz500
  deriving DecidableEq

def Bandwidth.code : Bandwidth → Nat
  | khz125 => 7
  | khz250 => 8
  | khz500 => 9

inductive CodingRate
  | cr45 | cr46 | cr47 | cr48
  deriving DecidableEq

def CodingRate.code : CodingRate → Nat
  | cr45 => 1
  | cr46 => 2
  | cr47 => 3
  | cr48 => 4

def okTag : List Char := "+OK".toList

def uidTag : List Char := "+UID=".toList

def crlf : List Char := ['\r', '\n']

def sendRaw (cmd : List Char) (c : RylrClient) : RylrClient :=
  { c with written := c.written ++ cmd ++ if crlf.isSuffixOf cmd then [] else crlf }

def sendCmdExpect (t : Target) (cmd expected : List Char) (c : RylrClient) :
    Poll Line × RylrClient := expect t expected (sendRaw cmd c)

def sendCmdExpectOk (t : Target) (cmd : List Char) (c : RylrClient) : Poll Line × RylrClient :=
  sendCmdExpect t cmd okTag c

/-- The longest identifier of a module. -/
def maxUidLen : Nat := 64

inductive Reply
  | done
  | uid (text : FixedText maxUidLen)
  deriving DecidableEq

/-- Go on with the line that was waited for. -/
def withLine (r : Poll Line × RylrClient)
    (k : Line → RylrClient → Poll Reply × RylrClient) : Poll Reply × RylrClient :=
  match r with
  | (some (.ok line), c) => k line c
  | (some (.error e), c) => (some (.error e), c)
  | (none, c) => (none, c)

/-- The line itself does not matter. -/
def ignoreLine (r : Poll Line × RylrClient) : Poll Reply × RylrClient :=
  withLine r fun _ c => (some (.ok .done), c)

def decimal (n : Nat) : List Char := Nat.toDigits 10 n

section Commands
variable (t : Target)

def ping (c : RylrClient) : Poll Reply × RylrClient :=
  ignoreLine (sendCmdExpectOk t "AT".toList c)

def reset (c : RylrClient) : Poll Reply × RylrClient :=
  withLine (sendCmdExpect t "AT+RESET".toList "+RESET".toList c) fun _ c =>
    ignoreLine (expect t "+READY".toList c)

def setMode (mode : WirelessMode) (c : RylrClient) : Poll Reply × RylrClient :=
  ignoreLine (sendCmdExpectOk t ("AT+MODE=".toList ++ decimal mode.code) c)

def setBaudRate (baudRate : U32) (c : RylrClient) : Poll Reply × RylrClient :=
  ignoreLine (sendCmdExpect t ("AT+IPR=".toList ++ decimal baudRate.toNat)
    ("+IPR=".toList ++ decimal baudRate.toNat) c)

def setRfFrequency (frequency : U32) (rememberInFlash : Bool) (c : RylrClient) :
    Poll Reply × RylrClient :=
  ignoreLine (sendCmdExpectOk t ("AT+BAND=".toList ++ decimal frequency.toNat ++
    if rememberInFlash then ",M".toList else []) c)

def setParameters (spreadingFactor : SpreadingFactory) (bandwidth : Bandwidth)
    (codingRate : CodingRate) (programmingPreamble : U8) (c : RylrClient) :
    Poll Reply × RylrClient :=
  ignoreLine (sendCmdExpectOk t ("AT+PARAMETER=".toList ++ [','].intercalate
    [decimal spreadingFactor.code, decimal bandwidth.code, decimal codingRate.code,
      decimal programmingPreamble.toNat]) c)

def setAddress (address : U16) (c : RylrClient) : Poll Reply × RylrClient :=
  ignoreLine (sendCmdExpectOk t ("AT+ADDRESS=".toList ++ decimal address.toNat) c)

def setNetworkId (networkId : U8) (c : RylrClient) : Poll Reply × RylrClient :=
  withLine (sendCmdExpectOk t ("AT+NETWORKID=".toList ++ decimal networkId.toNat) c) fun _ c =>
    (some (.ok .done), { c with networkId := networkId })

def setRfOutputPower (dbm : U8) (c : RylrClient) : Poll Reply × RylrClient :=
  ignoreLine (sendCmdExpectOk t ("AT+CRFOP=".toList ++ decimal dbm.toNat) c)

def sendData (targetAddress : U16) (data : List Char) (c : RylrClient) :
    Poll Reply × RylrClient :=
  if maxDataLen < utf8Len data then (some (.error .requestTooLarge), c)
  else
    ignoreLine (sendCmdExpectOk t ("AT+SEND=".toList ++ [','].intercalate
      [decimal targetAddress.toNat, decimal (utf8Len data), data]) c)

/-- The identifier in a line; the line is not trimmed here. -/
def uidOf (line : List Char) : Except LoraError Reply :=
  if uidTag.isPrefixOf line then
    match (FixedText.ofText? (line.drop uidTag.length) : Option (FixedText maxUidLen)) with
    | some uid => .ok (.uid uid)
    | none => .error .invalidResponse
  else .ok (.uid .empty)

def queryModuleId (c : RylrClient) : Poll Reply × RylrClient :=
  withLine (sendCmdExpect t "AT+UID?".toList uidTag c) fun line c => (some (uidOf line.text), c)

end Commands

inductive Command
  | ping
  | reset
  | setMode (mode : WirelessMode)
  | setBaudRate (baudRate : U32)
  | setRfFrequency (frequency : U32) (rememberInFlash : Bool)
  | setParameters (spreadingFactor : SpreadingFactory) (bandwidth : Bandwidth)
      (codingRate : CodingRate) (programmingPreamble : U8)
  | setAddress (address : U16)
  | setNetworkId (networkId : U8)
  | setRfOutputPower (dbm : U8)
  | sendData (targetAddress : U16) (data : List Char)
  | queryModuleId

def perform (t : Target) : Command → RylrClient → Poll Reply × RylrClient
  | .ping => ping t
  | .reset => reset t
  | .setMode mode => setMode t mode
  | .setBaudRate baudRate => setBaudRate t baudRate
  | .setRfFrequency frequency rememberInFlash => setRfFrequency t frequency rememberInFlash
  | .setParameters sf bw cr preamble => setParameters t sf bw cr preamble
  | .setAddress address => setAddress t address
  | .setNetworkId networkId => setNetworkId t networkId
  | .setRfOutputPower dbm => setRfOutputPower t dbm
  | .sendData targetAddress data => sendData t targetAddress data
  | .queryModuleId => queryModuleId t

end Wayfinder.Rylr
