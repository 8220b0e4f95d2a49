import McuTest.MainLoop
import McuTest.Printf

/-! The texts of mcu_test: the client id, the topics and what is published
under them. -/

namespace McuTest

open Printf Numerals

structure MacAddr where
  a : Byte
  b : Byte
  c : Byte
  d : Byte
  e : Byte
  f : Byte
  deriving DecidableEq

def MacAddr.octets (m : MacAddr) : List Nat :=
  [m.a.toNat, m.b.toNat, m.c.toNat, m.d.toNat, m.e.toNat, m.f.toNat]

def addrOctets (addr : UInt32) : List Nat :=
  [(addr &&& 0xFF).toNat, ((addr >>> 8) &&& 0xFF).toNat, ((addr >>> 16) &&& 0xFF).toNat,
    ((addr >>> 24) &&& 0xFF).toNat]

def hoursMinutesSeconds (upTime : UInt32) : List Nat :=
  [(upTime / 3600).toNat, (upTime / 60 % 60).toNat, (upTime % 60).toNat]

def nodeNameFormat : String := "mcu_test-%02X%02X%02X%02X%02X%02X"

def nodeTopicFormat : String := "mcu_test/%02X%02X%02X"

def macFormat : String := "%02X-%02X-%02X-%02X-%02X-%02X"

def ipFormat : String := "%u.%u.%u.%u"

def uptimeFormat : String := "%02u:%02u:%02u"

def subscribeFormat : String := "%s/set/#"

def Report.topicFormat : Report → String
  | .status => "%s/status"
  | .mac => "%s/mac"
  | .ip _ => "%s/ip"
  | .uptime _ => "%s/uptime"

def MacAddr.nodeArgs (m : MacAddr) : List Arg :=
  [.num m.d.toNat, .num m.e.toNat, .num m.f.toNat]

namespace MacAddr

def nodeName (m : MacAddr) : List Byte :=
  text nodeNameFormat (m.octets.map .num)

def nodeTopic (m : MacAddr) : List Byte :=
  text nodeTopicFormat m.nodeArgs

def topic (m : MacAddr) (r : Report) : List Byte :=
  text r.topicFormat [.str m.nodeTopic]

def filter (m : MacAddr) : List Byte :=
  text subscribeFormat [.str m.nodeTopic]

def payload (m : MacAddr) : Report → List Byte
  | .status => bytes "1"
  | .mac => text macFormat (m.octets.map .num)
  | .ip addr => text ipFormat ((addrOctets addr).map .num)
  | .uptime upTime => text uptimeFormat ((hoursMinutesSeconds upTime).map .num)

end MacAddr

def Report.retain : Report → Bool
  | .uptime _ => false
  | _ => true

variable (m : MacAddr)

theorem nodeName_eq : m.nodeName = bytes "mcu_test-" ++ m.octets.flatMap (numeral 16 2) := rfl

theorem nodeTopic_eq :
    m.nodeTopic = bytes "mcu_test/" ++ [m.d.toNat, m.e.toNat, m.f.toNat].flatMap (numeral 16 2) :=
  rfl

def Report.suffix : Report → List Byte
  | .status => bytes "/status"
  | .mac => bytes "/mac"
  | .ip _ => bytes "/ip"
  | .uptime _ => bytes "/uptime"

theorem pieces_topicFormat (r : Report) :
    pieces r.topicFormat.toList = .str :: r.suffix.map .lit := by
  cases r <;> simp [Report.topicFormat, Report.suffix, pieces, bytes]

theorem topic_eq (r : Report) : m.topic r = m.nodeTopic ++ r.suffix := by
  rw [MacAddr.topic, text, pieces_topicFormat, fill, fill_lits]

theorem filter_eq : m.filter = m.nodeTopic ++ bytes "/set/#" := rfl

theorem payload_mac : m.payload .mac = fields 16 2 45 m.octets := rfl

theorem payload_ip (addr : UInt32) : m.payload (.ip addr) = fields 10 0 46 (addrOctets addr) := rfl

theorem payload_uptime (upTime : UInt32) :
    m.payload (.uptime upTime) = fields 10 2 58 (hoursMinutesSeconds upTime) := rfl

theorem hexOctet_length (b : Byte) : (numeral 16 2 b.toNat).length = 2 :=
  numeral_length_eq (by decide) (by decide) b.toNat_lt

theorem nodeName_length : m.nodeName.length = 21 := by
  rw [nodeName_eq]
  simp [MacAddr.octets, hexOctet_length, bytes]

theorem nodeTopic_length : m.nodeTopic.length = 15 := by
  rw [nodeTopic_eq]
  simp [hexOctet_length, bytes]

theorem topic_length_lt (r : Report) : (m.topic r).length < 32 := by
  have hsuffix : r.suffix.length ≤ 7 := by cases r <;> simp [Report.suffix, bytes]
  rw [topic_eq, List.length_append, nodeTopic_length]
  omega

theorem filter_length_lt : m.filter.length < 32 := by
  rw [filter_eq, List.length_append, nodeTopic_length]
  decide

theorem byte_masked_lt (x : UInt32) : (x &&& 0xFF).toNat < 256 := by
  rw [UInt32.toNat_and]
  exact Nat.lt_of_le_of_lt Nat.and_le_right (by decide)

theorem addrOctets_lt (addr : UInt32) : ∀ n ∈ addrOctets addr, n < 256 := by
  intro n hn
  simp only [addrOctets, List.mem_cons, List.not_mem_nil, or_false] at hn
  rcases hn with rfl | rfl | rfl | rfl <;> exact byte_masked_lt _

theorem hoursMinutesSeconds_lt (upTime : UInt32) :
    ∀ n ∈ hoursMinutesSeconds upTime, n < 10 ^ 7 := by
  have hup := upTime.toNat_lt
  intro n hn
  simp only [hoursMinutesSeconds, List.mem_cons, List.not_mem_nil, or_false] at hn
  rcases hn with rfl | rfl | rfl
  · rw [UInt32.toNat_div]
    change upTime.toNat / 3600 < 10 ^ 7
    omega
  · rw [UInt32.toNat_mod, UInt32.toNat_div]
    change upTime.toNat / 60 % 60 < 10 ^ 7
    omega
  · rw [UInt32.toNat_mod]
    change upTime.toNat % 60 < 10 ^ 7
    omega

/-- Any payload fits into `msgBuf` with its terminator. -/
theorem payload_length_lt (r : Report) : (m.payload r).length < 32 := by
  cases r with
  | status => simp [MacAddr.payload, bytes]
  | mac =>
    have hlen : (fields 16 2 45 m.octets).length < (2 + 1) * m.octets.length := by
      apply fields_length_lt (by simp [MacAddr.octets])
      intro n hn
      simp only [MacAddr.octets, List.mem_cons, List.not_mem_nil, or_false] at hn
      rcases hn with rfl | rfl | rfl | rfl | rfl | rfl <;> exact (hexOctet_length _).le
    rw [payload_mac]
    exact Nat.lt_trans hlen (by simp [MacAddr.octets])
  | ip addr =>
    have hlen : (fields 10 0 46 (addrOctets addr)).length < (3 + 1) * (addrOctets addr).length := by
      apply fields_length_lt (by simp [addrOctets])
      intro n hn
      have hlt : n < 10 ^ 3 := Nat.lt_trans (addrOctets_lt addr n hn) (by decide)
      exact numeral_length_le (by decide) (by decide) hlt
    rw [payload_ip]
    exact Nat.lt_trans hlen (by simp [addrOctets])
  | uptime upTime =>
    have hlen : (fields 10 2 58 (hoursMinutesSeconds upTime)).length <
        (7 + 1) * (hoursMinutesSeconds upTime).length := by
      apply fields_length_lt (by simp [hoursMinutesSeconds])
      intro n hn
      have hlt := hoursMinutesSeconds_lt upTime n hn
      exact numeral_length_le (by decide) (by decide) hlt
    rw [payload_uptime]
    exact Nat.lt_trans hlen (by simp [hoursMinutesSeconds])

theorem zero_not_mem_octets (ns : List Nat) : (0 : Byte) ∉ ns.flatMap (numeral 16 2) := by
  intro hmem
  obtain ⟨n, _, hn⟩ := List.mem_flatMap.mp hmem
  exact not_mem_numeral (by decide) (by decide) (by decide) hn

theorem zero_not_mem_nodeName : 0 ∉ m.nodeName := by
  rw [nodeName_eq, List.mem_append, not_or]
  exact ⟨by decide, zero_not_mem_octets _⟩

theorem zero_not_mem_nodeTopic : 0 ∉ m.nodeTopic := by
  rw [nodeTopic_eq, List.mem_append, not_or]
  exact ⟨by decide, zero_not_mem_octets _⟩

theorem zero_not_mem_topic (r : Report) : 0 ∉ m.topic r := by
  rw [topic_eq, List.mem_append, not_or]
  refine ⟨zero_not_mem_nodeTopic m, ?_⟩
  cases r <;> simp [Report.suffix, bytes, ascii]

theorem zero_not_mem_filter : 0 ∉ m.filter := by
  rw [filter_eq, List.mem_append, not_or]
  exact ⟨zero_not_mem_nodeTopic m, by decide⟩

theorem zero_not_mem_fields {base width : Nat} (hb : 1 < base) (hb' : base ≤ 36) {sep : Byte}
    (hsep : 0 ≠ sep) (ns : List Nat) : 0 ∉ fields base width sep ns :=
  not_mem_fields hb hb' (by decide) hsep ns

theorem zero_not_mem_payload (r : Report) : 0 ∉ m.payload r := by
  cases r with
  | status => simp [MacAddr.payload, bytes, ascii]
  | mac =>
    rw [payload_mac]
    exact zero_not_mem_fields (by decide) (by decide) (by decide) _
  | ip addr =>
    rw [payload_ip]
    exact zero_not_mem_fields (by decide) (by decide) (by decide) _
  | uptime upTime =>
    rw [payload_uptime]
    exact zero_not_mem_fields (by decide) (by decide) (by decide) _

end McuTest
