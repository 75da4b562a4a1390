import SwiftRobot.ConnectionRuns
import SwiftRobot.PlistBlocks

/-!
# What a connection asks usbmuxd for

The Connect requests of a device's connection over a whole run, read back with the reader
of the answers.
-/

namespace SwiftRobot.UsbmuxRequests
open ByteWords Reading Plist XmlPlist Connection ConnectionRuns PlistBlocks

def portNumber (port : UInt16) : Int64 := Int64.ofNat (256 * (port.toNat % 256) + port.toNat / 256)

/-- A device's Connect request. An id from `2 ^ 31` on is a negative number. -/
def connectEntries (device_id : UInt32) (port : UInt16) : Dictionary :=
  [(text "ClientVersionString", .string (text "1.0")),
    (text "DeviceID", .int64 device_id.toInt32.toInt64),
    (text "MessageType", .string (text "Connect")),
    (text "PortNumber", .int64 (portNumber port)),
    (text "ProgName", .string (text "swiftrobotc"))]

theorem port_bigendian (port : UInt16) :
    (((port.toUInt64 <<< 8) &&& (0xFF00 : UInt64)) ||| (port.toUInt64 >>> 8)).toUInt16.toNat =
      256 * (port.toNat % 256) + port.toNat / 256 := by
  have hlt := port.toNat_lt
  have hmask : port.toNat <<< 8 &&& 65280 = (port.toNat % 256) <<< 8 := by
    rw [show 65280 = 255 <<< 8 from rfl, ← Nat.shiftLeft_and_distrib,
      Nat.and_two_pow_sub_one_eq_mod port.toNat 8]
  have hlow : port.toNat >>> 8 = port.toNat / 256 := Nat.shiftRight_eq_div_pow _ 8
  have hor : (port.toNat % 256) <<< 8 ||| port.toNat / 256 =
      (port.toNat % 256) <<< 8 + port.toNat / 256 :=
    (Nat.shiftLeft_add_eq_or_of_lt (by omega) _).symm
  have hshift : port.toNat <<< 8 % 2 ^ 64 = port.toNat <<< 8 := by
    rw [Nat.shiftLeft_eq]
    omega
  simp only [UInt64.toNat_toUInt16, UInt64.toNat_or, UInt64.toNat_and, UInt64.toNat_shiftLeft,
    UInt64.toNat_shiftRight, UInt16.toNat_toUInt64, UInt64.reduceToNat, Nat.reduceMod, hshift,
    hmask, hlow, hor]
  rw [Nat.shiftLeft_eq]
  omega

theorem toInt64_of_port (x : UInt16) : x.toUInt32.toInt32.toInt64 = Int64.ofNat x.toNat := by
  have hlt := x.toNat_lt
  have hint : x.toUInt32.toInt32 = Int32.ofNat x.toNat := by
    rw [← Int32.toBitVec_inj]
    apply BitVec.eq_of_toNat_eq
    simp
  rw [← Int64.toInt_inj, Int32.toInt_toInt64, Int64.toInt_ofNat_of_lt (by omega), hint,
    Int32.toInt_ofNat_of_lt (by omega)]

section
variable {p : Platform} {usb_device_info : UsbDeviceInfo} {port : UInt16}

def requestEntries (usb_device_info : UsbDeviceInfo) (port : UInt16) : List (Bytes × Value) :=
  [(text "ClientVersionString", .scalar (.string (text "1.0"))),
    (text "DeviceID", .scalar (.int32 usb_device_info.device_id.toInt32)),
    (text "MessageType", .scalar (.string (text "Connect"))),
    (text "PortNumber", .scalar (.int32 (((port.toUInt64 <<< 8) &&& (0xFF00 : UInt64)) |||
      (port.toUInt64 >>> 8)).toUInt16.toUInt32.toInt32)),
    (text "ProgName", .scalar (.string (text "swiftrobotc")))]

theorem request_eq : request p.library (ofDevice usb_device_info port) =
    (writePlistXML p.texts (.dictionary (requestEntries usb_device_info port))).toOption.getD [] :=
  rfl

theorem requestEntries_legible (texts : Texts) :
    (Value.dictionary (requestEntries usb_device_info port)).KeyedWith (Legible texts) := by
  rw [Value.keyedWith_dictionary]
  constructor
  · have hkeys : ([text "ClientVersionString", text "DeviceID", text "MessageType",
        text "PortNumber", text "ProgName"]).Pairwise (· < ·) := by decide
    exact List.pairwise_map.mp hkeys
  · intro e he
    simp only [requestEntries, List.mem_cons, List.not_mem_nil, or_false] at he
    rcases he with rfl | rfl | rfl | rfl | rfl
    all_goals trivial

theorem requestEntries_kept {s : Bytes}
    (hs : s ∈ textsOf (.dictionary (requestEntries usb_device_info port))) : Kept s := by
  change s ∈ [text "ClientVersionString", text "1.0", text "DeviceID", text "MessageType",
    text "Connect", text "PortNumber", text "ProgName", text "swiftrobotc"] at hs
  simp only [List.mem_cons, List.not_mem_nil, or_false] at hs
  rcases hs with rfl | rfl | rfl | rfl | rfl | rfl | rfl | rfl
  all_goals exact ⟨by decide, by decide, Or.inr rfl⟩

theorem request_read (tail : Bytes)
    (halloc : ∀ n ≤ (request p.library (ofDevice usb_device_info port)).length + 32,
      p.allocates n = true) :
    (readPlist p.library (request p.library (ofDevice usb_device_info port)).length
      (request p.library (ofDevice usb_device_info port) ++ tail)).value =
        some (some (connectEntries usb_device_info.device_id port)) := by
  have hlegible := @requestEntries_legible usb_device_info port p.texts
  obtain ⟨contents, hwrite, -⟩ := readPlistXML_writePlistXML p.texts p.convert hlegible
  obtain ⟨hholds, hparsed⟩ := parsed_xml (p := p) hlegible hwrite
  have hrequest : request p.library (ofDevice usb_device_info port) = contents := by
    rw [request_eq, hwrite]
    rfl
  have hsame := (readValue_eq_iff p.texts (hlegible.mono fun _ _ => trivial)).mpr
    fun s hs => requestEntries_kept hs
  rw [hrequest] at halloc ⊢
  rw [readPlist_value halloc hholds (parsed_ne_nil hparsed), hparsed, hsame, connectEntries,
    portNumber, ← port_bigendian, ← toInt64_of_port]
  rfl

end

section
variable {lib : Library} {c c' : Connection}

theorem apply_kept {op : Op} (h : op.apply lib c = some c') :
    c'.usb_info = c.usb_info ∧ c'.port = c.port := by
  cases op with
  | startConnection reachable =>
    rw [← Option.some.inj h]
    cases husb : c.usbmux with
    | true =>
      obtain ⟨plist, hstart⟩ := started_usb lib husb reachable
      rw [hstart]
      exact ⟨rfl, rfl⟩
    | false =>
      rw [started_address lib husb]
      cases reachable <;> exact ⟨rfl, rfl⟩
  | disconnect =>
    rw [← Option.some.inj h, Connection.disconnect]
    split_ifs <;> exact ⟨rfl, rfl⟩
  | send type data =>
    rw [← Option.some.inj h, Connection.send]
    split_ifs <;> exact ⟨rfl, rfl⟩
  | send2 type data1 data2 =>
    rw [← Option.some.inj h, Connection.send2]
    split_ifs <;> exact ⟨rfl, rfl⟩
  | frame header size memory =>
    obtain ⟨r, hr, rfl⟩ := Option.map_eq_some_iff.mp h
    cases Received.of_value hr with
    | plist _ _ hplist =>
      obtain ⟨type, -, ⟨-, number, -, rfl⟩ | ⟨-, rfl⟩⟩ := plistReceived_some hplist
      · rw [resultReceived]
        split_ifs <;> exact ⟨rfl, rfl⟩
      · exact ⟨rfl, rfl⟩
    | unreadable _ _ => exact ⟨rfl, rfl⟩
    | named _ _ _ => exact ⟨rfl, rfl⟩
    | packet _ _ => exact ⟨rfl, rfl⟩
    | ignored _ _ => exact ⟨rfl, rfl⟩

structure Addressed (lib : Library) (usb_device_info : UsbDeviceInfo) (port : UInt16)
    (c : Connection) : Prop where
  info_eq : c.usb_info = usb_device_info
  port_eq : c.port = port.toUInt64
  requests : ∀ tag plist, .sendPlist tag plist ∈ c.client.calls →
    plist = request lib (ofDevice usb_device_info port)

theorem Addressed.step {usb_device_info : UsbDeviceInfo} {port : UInt16} {op : Op}
    (h : Addressed lib usb_device_info port c) (hs : Step lib c op c') :
    Addressed lib usb_device_info port c' := by
  obtain ⟨hinfo, hport⟩ := apply_kept hs
  refine ⟨hinfo.trans h.info_eq, hport.trans h.port_eq, fun tag plist hmem => ?_⟩
  rw [(apply_made hs).calls] at hmem
  rcases List.mem_append.mp hmem with hmem | hmem
  · exact h.requests tag plist hmem
  · cases op with
    | startConnection reachable =>
      rw [Op.calls] at hmem
      split_ifs at hmem
      · obtain ⟨-, rfl⟩ := Call.sendPlist.inj (List.mem_singleton.mp hmem)
        rw [request, h.info_eq, h.port_eq]
        rfl
      · exact absurd hmem List.not_mem_nil
    | send type data =>
      rw [Op.calls] at hmem
      split_ifs at hmem
      · cases List.mem_singleton.mp hmem
      · exact absurd hmem List.not_mem_nil
    | send2 type data1 data2 =>
      rw [Op.calls] at hmem
      split_ifs at hmem
      · cases List.mem_singleton.mp hmem
      · exact absurd hmem List.not_mem_nil
    | disconnect | frame _ _ _ => exact absurd hmem List.not_mem_nil

end

/-- Whatever happens to the connection of a device, each request it makes names the device and
the port, whoever reads it and whatever lies behind it. -/
theorem requests_name_device {p : Platform} {usb_device_info : UsbDeviceInfo} {port : UInt16}
    {ops : List Op} {c : Connection} (run : Run (Step p.library) (ofDevice usb_device_info port) ops c)
    {tag : UInt32} {plist : Bytes} (hplist : .sendPlist tag plist ∈ c.client.calls)
    (halloc : ∀ n ≤ plist.length + 32, p.allocates n = true) (tail : Bytes) :
    (readPlist p.library plist.length (plist ++ tail)).value =
      some (some (connectEntries usb_device_info.device_id port)) := by
  have haddressed : Addressed p.library usb_device_info port c :=
    run.invariant (fun _ _ _ h hs => h.step hs)
      ⟨rfl, rfl, fun tag plist h => absurd h List.not_mem_nil⟩
  rw [haddressed.requests tag plist hplist] at halloc ⊢
  exact request_read tail halloc

/-- The first request for port 8080 of the device 7. -/
theorem first_request : ∃ c plist,
    Run (Step plainPlatform.library) (ofDevice ⟨7, 0, 0, 0, [], []⟩ 8080)
        [.startConnection false] c ∧
      .sendPlist 1 plist ∈ c.client.calls ∧
      (readPlist plainPlatform.library plist.length (plist ++ [])).value =
        some (some (connectEntries 7 8080)) := by
  have run : Run (Step plainPlatform.library) (ofDevice ⟨7, 0, 0, 0, [], []⟩ 8080)
      [.startConnection false] _ := .single rfl
  exact ⟨_, _, run, .head _, requests_name_device run (.head _) (fun _ _ => rfl) []⟩

example : portNumber 8080 = 36895 := by decide

end SwiftRobot.UsbmuxRequests
