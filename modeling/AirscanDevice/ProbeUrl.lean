/-
# The base URL of a device

`device_probe_address` prints the URL of a candidate address into text and parses it back
with `soup_uri_new`; every request of the device is then made relative to that base, and the
merge of `soup_uri_new_with_base` keeps the base path only up to its last `/`.

This module proves, for every candidate address (either family, any port, any zone index and
any `rs`):

* `strAddr_fits`: every store into `str_addr` stays within its 128 bytes, and the buffer
  `avahi_address_snprint` is given holds the literal with its NUL;
* `strAddr_text`: the stores leave in `str_addr` the text `deviceProbeStrAddr` gives, the
  literal in brackets for IPv6 with the `%25` zone when link-local, whatever the buffer held;
* `soupUriNew_deviceProbeUrl`: the probe URL always parses, as an `http` URI whose host is the
  literal without its brackets, whose port is the candidate's, and whose path, query and
  fragment are those of the text after the port;
* `soupUriNew_deviceProbeUrl_plain`: when `rs` has no `?` and no `#` the path is `/` or
  `/rs/`, which ends in `/`;
* `soupUriNew_deviceProbeUrl_cut`: a `?` or `#` in `rs` cuts the path before it, with no `/`
  after.  The URL is printed with no escaping of `rs`.

Section 4 characterises `String.endsWith "/"` on the characters, and gives the merge of a
relative request with a base (`soupUriNewWithBase_scannerCapabilities`) that `Requests.lean`
builds on; `deviceProbeUrl_base` says that every probe URL is such a base.
-/
import AirscanDevice.Url
import Mathlib.Data.String.Basic
import Mathlib.Data.Nat.Digits

namespace AirscanDevice

/-! ## 1. The characters and lengths of the literals -/

/-- The characters of an address literal: hex digits, `.` and `:`. -/
def litChar (c : Char) : Bool := c.isDigit || ('a' ≤ c && c ≤ 'f') || c == '.' || c == ':'

/-- The characters the host part of a probe URL is made of: those of the address literals,
and the `%` and `-` of a zone index. -/
def hostChar (c : Char) : Bool := litChar c || c == '%' || c == '-'

theorem hostChar_of_litChar {c : Char} (h : litChar c = true) : hostChar c = true := by
  simp [hostChar, h]

theorem mem_toDigitsCore {b : Nat} (hb : 0 < b) :
    ∀ (f n : Nat) (ds : List Char) (c : Char), c ∈ Nat.toDigitsCore b f n ds →
      c ∈ ds ∨ ∃ k < b, c = Nat.digitChar k
  | 0, _, _, _, h => .inl h
  | f + 1, n, ds, c, h => by
    simp only [Nat.toDigitsCore] at h
    split at h
    · rcases List.mem_cons.mp h with rfl | h
      exacts [.inr ⟨_, Nat.mod_lt n hb, rfl⟩, .inl h]
    · rcases mem_toDigitsCore hb f _ _ c h with h | h
      · rcases List.mem_cons.mp h with rfl | h
        exacts [.inr ⟨_, Nat.mod_lt n hb, rfl⟩, .inl h]
      · exact .inr h

/-- A digit in a base up to 16 is a literal character. -/
theorem litChar_of_mem_toDigits {b n : Nat} (hb : 0 < b) (hb16 : b ≤ 16) {c : Char}
    (h : c ∈ Nat.toDigits b n) : litChar c = true := by
  rcases mem_toDigitsCore hb _ n [] c h with h | ⟨k, hk, rfl⟩
  · cases h
  · have : ∀ k < 16, litChar (Nat.digitChar k) = true := by decide
    exact this k (by omega)

/-- A decimal digit is a digit. -/
theorem isDigit_of_mem_toDigits {n : Nat} {c : Char} (h : c ∈ Nat.toDigits 10 n) :
    c.isDigit = true := by
  rcases mem_toDigitsCore (by decide) _ n [] c h with h | ⟨k, hk, rfl⟩
  · cases h
  · have : ∀ k < 10, (Nat.digitChar k).isDigit = true := by decide
    exact this k hk

theorem length_toDigits_le {b n e : Nat} (hb : 2 ≤ b) (he : 0 < e) (hn : n < b ^ e) :
    (Nat.toDigits b n).length ≤ e :=
  Nat.toDigitsCore_length b hb _ n e hn he

/-- The text `String.intercalate` builds. -/
theorem intercalate_go_data (s : String) :
    ∀ (acc : String) (l : List String),
      (String.intercalate.go acc s l).data = acc.data ++ (l.map fun a => s.data ++ a.data).flatten
  | _, [] => by simp [String.intercalate.go]
  | acc, a :: l => by
    simp [String.intercalate.go, intercalate_go_data s _ l]

theorem length_flatten_map_le {α : Type} (f : α → List Char) (k : Nat)
    (h : ∀ a, (f a).length ≤ k) : ∀ l : List α, ((l.map f).flatten).length ≤ k * l.length
  | [] => by simp
  | a :: l => by
    have := length_flatten_map_le f k h l
    have := h a
    simp only [List.map_cons, List.flatten_cons, List.length_append, List.length_cons]
    rw [Nat.mul_succ]
    omega

/-- The dotted quad: decimal digits and dots, three digits a byte and a dot between. -/
theorem inetNtop4_chars_length (b : List UInt8) :
    (∀ c ∈ (inetNtop4 b).data, c.isDigit = true ∨ c = '.') ∧
      (inetNtop4 b).length ≤ 4 * b.length := by
  have hdig : ∀ x : UInt8, ∀ c ∈ (toString x.toNat).data, c.isDigit = true := fun x c h =>
    isDigit_of_mem_toDigits h
  have hlen : ∀ x : UInt8, (toString x.toNat).length ≤ 3 := fun x =>
    Nat.repr_length _ _ (by decide) (lt_of_lt_of_le x.toNat_lt_size (by decide))
  cases b with
  | nil => simp [inetNtop4, String.intercalate]
  | cons x b =>
    simp only [inetNtop4, List.map_cons, String.intercalate]
    constructor
    · intro c hc
      simp only [intercalate_go_data, List.mem_append, List.mem_flatten, List.mem_map] at hc
      rcases hc with hc | ⟨_, ⟨_, ⟨y, -, rfl⟩, rfl⟩, hc⟩
      · exact .inl (hdig x c hc)
      · rcases List.mem_append.mp hc with hc | hc
        · exact .inr (by simpa using hc)
        · exact .inl (hdig y c hc)
    · have hrest := length_flatten_map_le (fun a : UInt8 => ['.'] ++ (toString a.toNat).data) 4
        (fun a => by simpa [Nat.add_comm] using Nat.succ_le_succ (hlen a)) b
      have hx : (toString x.toNat).data.length ≤ 3 := hlen x
      rw [String.length, intercalate_go_data, List.length_append, List.map_map]
      simp only [List.length_cons, Function.comp_def]
      omega

/-- The words of an IPv6 address are 16-bit. -/
theorem ipv6Words_lt : ∀ (b : List UInt8), ∀ x ∈ ipv6Words b, x < 65536
  | hi :: lo :: rest, x, h => by
    simp only [ipv6Words, List.mem_cons] at h
    rcases h with rfl | h
    · have := hi.toNat_lt_size
      have := lo.toNat_lt_size
      simp only [UInt8.size] at *
      omega
    · exact ipv6Words_lt rest x h
  | [], _, h => by simp [ipv6Words] at h
  | [_], _, h => by simp [ipv6Words] at h

/-- `%x` of a 16-bit word: at most four hex digits. -/
theorem hexWord_chars_length {x : Nat} (hx : x < 65536) :
    (∀ c ∈ (hexWord x).data, litChar c = true) ∧ (hexWord x).length ≤ 4 :=
  ⟨fun _ h => litChar_of_mem_toDigits (by decide) le_rfl h,
    length_toDigits_le (by decide) (by decide) (by simpa using hx)⟩

/-- The loop of `inet_ntop6`: host characters, at most a separator and four hex digits a
word, and the dotted quad once. -/
theorem inetNtop6Loop_chars_length (b : List UInt8) (w : List Nat) (best : Option (Nat × Nat))
    (hw : ∀ x ∈ w, x < 65536) (hb : (b.drop 12).length ≤ 4) :
    ∀ is : List Nat, (∀ c ∈ (inetNtop6Loop b w best is).data, litChar c = true) ∧
      (inetNtop6Loop b w best is).length ≤ 5 * is.length + 12
  | [] => by simp [inetNtop6Loop]
  | i :: is => by
    obtain ⟨ih1, ih2⟩ := inetNtop6Loop_chars_length b w best hw hb is
    have hsep : ∀ p : Prop, [Decidable p] → (∀ c ∈ (if p then ":" else "").data,
        litChar c = true) ∧ (if p then ":" else "").length ≤ 1 := fun p _ => by
      split
      exacts [⟨by decide, by decide⟩, ⟨by decide, by decide⟩]
    have hword : w.getD i 0 < 65536 := by
      rw [List.getD_eq_getElem?_getD]
      cases h : w[i]? with
      | none => decide
      | some x => exact hw x (List.mem_iff_getElem?.mpr ⟨i, h⟩)
    obtain ⟨hq1, hq2⟩ := inetNtop4_chars_length (b.drop 12)
    obtain ⟨hh1, hh2⟩ := hexWord_chars_length hword
    simp only [inetNtop6Loop]
    split
    · obtain ⟨hs1, hs2⟩ := hsep (best.map Prod.fst = some i)
      refine ⟨fun c hc => ?_, ?_⟩
      · rcases List.mem_append.mp hc with hc | hc
        exacts [hs1 c hc, ih1 c hc]
      · simp only [String.length_append, List.length_cons]
        omega
    · obtain ⟨hs1, hs2⟩ := hsep (i ≠ 0)
      by_cases h6 : i = 6 ∧ embedsIpv4 w best = true
      · rw [if_pos h6]
        refine ⟨fun c hc => ?_, ?_⟩
        · rcases List.mem_append.mp hc with hc | hc
          · exact hs1 c hc
          · rcases hq1 c hc with h | rfl
            · simp [litChar, h]
            · decide
        · simp only [String.length_append, List.length_cons]
          omega
      · rw [if_neg h6]
        refine ⟨fun c hc => ?_, ?_⟩
        · rcases List.mem_append.mp hc with hc | hc
          · exact hs1 c hc
          · rcases List.mem_append.mp hc with hc | hc
            exacts [hh1 c hc, ih1 c hc]
        · simp only [String.length_append, List.length_cons]
          omega

/-- `inet_ntop6` of 16 bytes: host characters, at most 53 of them. -/
theorem inetNtop6_chars_length {b : List UInt8} (hb : b.length = 16) :
    (∀ c ∈ (inetNtop6 b).data, litChar c = true) ∧ (inetNtop6 b).length ≤ 53 := by
  obtain ⟨h1, h2⟩ := inetNtop6Loop_chars_length b (ipv6Words b) (bestZeroRun (ipv6Words b))
    (ipv6Words_lt b) (by simp [hb]) (List.range 8)
  simp only [List.length_range] at h2
  dsimp only [inetNtop6]
  generalize inetNtop6Loop b _ _ _ = l at h1 h2
  have key : ∀ t : String, (t = ":" ∨ t = "") →
      (∀ c ∈ (l ++ t).data, litChar c = true) ∧ (l ++ t).length ≤ 53 := by
    rintro t (rfl | rfl) <;> refine ⟨fun c hc => ?_, ?_⟩
    · rcases List.mem_append.mp hc with hc | hc
      exacts [h1 c hc, by simp at hc; simp [hc]; decide]
    · simp only [String.length_append]
      have : ":".length = 1 := rfl
      omega
    · exact h1 c (by simpa using hc)
    · simp only [String.length_append]
      have : "".length = 0 := rfl
      omega
  apply key
  split
  · split
    exacts [.inl rfl, .inr rfl]
  · exact .inr rfl

/-- `%d` of a 32-bit interface index, after `%25`: host characters, at most 14. -/
theorem zone_chars_length (i : BitVec 32) :
    (∀ c ∈ ("%25" ++ toString i.toInt).data, hostChar c = true) ∧
      ("%25" ++ toString i.toInt).length ≤ 14 := by
  have habs : i.toInt.natAbs ≤ 2 ^ 31 := by
    have := i.isLt
    rw [BitVec.toInt_eq_toNat_cond]
    split <;> omega
  have hdig : ∀ n : Nat, ∀ c ∈ (toString n).data, hostChar c = true := fun n c h =>
    hostChar_of_litChar (litChar_of_mem_toDigits (by decide) (by decide) h)
  have hlen : ∀ n : Nat, n ≤ 2 ^ 31 → (toString n).length ≤ 10 := fun n hn =>
    Nat.repr_length _ _ (by decide) (by omega)
  have hpct : ∀ c ∈ "%25".data, hostChar c = true := by decide
  have h3 : "%25".length = 3 := rfl
  rcases h : i.toInt with m | m <;> rw [h] at habs
  · have hm : m ≤ 2 ^ 31 := habs
    refine ⟨fun c hc => ?_, ?_⟩
    · rcases List.mem_append.mp hc with hc | hc
      exacts [hpct c hc, hdig m c hc]
    · have := hlen m hm
      rw [String.length_append, h3]
      exact Nat.add_le_add_left this 3 |>.trans (by decide)
  · have hm : m + 1 ≤ 2 ^ 31 := habs
    have hneg : toString (Int.negSucc m) = "-" ++ toString (m + 1) := rfl
    have hminus : ∀ c ∈ "-".data, hostChar c = true := by decide
    rw [hneg]
    refine ⟨fun c hc => ?_, ?_⟩
    · rcases List.mem_append.mp hc with hc | hc
      · exact hpct c hc
      · rcases List.mem_append.mp hc with hc | hc
        exacts [hminus c hc, hdig _ c hc]
    · have := hlen (m + 1) hm
      have h1 : "-".length = 1 := rfl
      rw [String.length_append, String.length_append, h3, h1]
      omega

/-- A host character is no bracket and ends no part of a URI. -/
theorem hostChar_ne {c : Char} (h : hostChar c = true) :
    c ≠ '[' ∧ c ≠ ']' ∧ (c ≠ '#' ∧ c ≠ '/' ∧ c ≠ '?' ∧ c ≠ '@') := by
  refine ⟨?_, ?_, ?_, ?_, ?_, ?_⟩ <;> rintro rfl <;> exact absurd h (by decide)

/-- The literal of `avahi_address_snprint`: host characters, at most 53 of them. -/
theorem avahiAddressSnprint_chars_length (addr : AvahiAddress) :
    (∀ c ∈ (avahiAddressSnprint addr).data, litChar c = true) ∧
      (avahiAddressSnprint addr).length ≤ 53 := by
  obtain ⟨proto, data, hlen⟩ := addr
  cases proto with
  | inet =>
    obtain ⟨h1, h2⟩ := inetNtop4_chars_length data
    have h4 : data.length = 4 := hlen
    refine ⟨fun c hc => ?_, show (inetNtop4 data).length ≤ 53 by omega⟩
    rcases h1 c hc with h | rfl
    · simp [litChar, h]
    · decide
  | inet6 => exact inetNtop6_chars_length hlen

/-- The host of a probe URL: the address literal, with the zone of a link-local IPv6
address, without the brackets. -/
def probeHost (a : ZeroconfAddrinfo) : String :=
  match a.addr.proto with
  | .inet => avahiAddressSnprint a.addr
  | .inet6 =>
    avahiAddressSnprint a.addr ++ (if a.linklocal then "%25" ++ toString a.interface.toInt else "")

/-- The host of a probe URL: host characters, at most 67 of them. -/
theorem probeHost_chars_length (a : ZeroconfAddrinfo) :
    (∀ c ∈ (probeHost a).data, hostChar c = true) ∧ (probeHost a).length ≤ 67 := by
  obtain ⟨h1, h2⟩ := avahiAddressSnprint_chars_length a.addr
  obtain ⟨z1, z2⟩ := zone_chars_length a.interface
  have h1 : ∀ c ∈ (avahiAddressSnprint a.addr).data, hostChar c = true := fun c hc =>
    hostChar_of_litChar (h1 c hc)
  unfold probeHost
  split
  · exact ⟨h1, by omega⟩
  · cases a.linklocal
    · simpa using ⟨h1, by omega⟩
    · refine ⟨fun c hc => ?_, by rw [if_pos rfl, String.length_append]; omega⟩
      rcases List.mem_append.mp (String.data_append .. ▸ hc) with hc | hc
      exacts [h1 c hc, z1 c hc]

/-- `str_addr` is the host, in brackets for IPv6. -/
theorem deviceProbeStrAddr_data (a : ZeroconfAddrinfo) :
    (deviceProbeStrAddr a).data = match a.addr.proto with
      | .inet => (probeHost a).data
      | .inet6 => '[' :: (probeHost a).data ++ [']'] := by
  cases h : a.addr.proto <;> simp [deviceProbeStrAddr, probeHost, h]

/-! ## 2. The stores into `str_addr` -/

/-- `sizeof(str_addr)`. -/
def strAddrSize : Nat := 128

/-- The size `device_probe_address` gives `avahi_address_snprint`: the whole buffer for IPv4,
and `sizeof(str_addr) - 2` after the `[` for IPv6. -/
def snprintSize : AvahiProtocol → Nat
  | .inet => strAddrSize
  | .inet6 => strAddrSize - 2

/-- The stores `device_probe_address` makes into `str_addr`, in order, as offset and bytes:
`avahi_address_snprint` with its NUL; for IPv6 the `[` before it, then at
`l = strlen(str_addr)` the `sprintf` of the zone with its NUL, the `]` at `l` and the NUL
after it. -/
def strAddrStores (a : ZeroconfAddrinfo) : List (Nat × List Char) :=
  let lit := (avahiAddressSnprint a.addr).data
  match a.addr.proto with
  | .inet => [(0, lit ++ ['\x00'])]
  | .inet6 =>
    let zone := ("%25" ++ toString a.interface.toInt).data
    let l := if a.linklocal then 1 + lit.length + zone.length else 1 + lit.length
    [(0, ['[']), (1, lit ++ ['\x00'])] ++
      (if a.linklocal then [(1 + lit.length, zone ++ ['\x00'])] else []) ++
      [(l, [']']), (l + 1, ['\x00'])]

/-- The buffer after a store of `st.2` at offset `st.1`. -/
def storeBytes (buf : Nat → Char) (st : Nat × List Char) : Nat → Char :=
  fun j => if st.1 ≤ j ∧ j < st.1 + st.2.length then st.2.getD (j - st.1) '\x00' else buf j

/-- The C string at the start of a buffer of `n` bytes: up to the first NUL. -/
def cString (buf : Nat → Char) (n : Nat) : List Char :=
  ((List.range n).map buf).takeWhile (· != '\x00')

/-- A store that starts where the text `t` of an earlier one ends, and covers at least the
rest `v` of it, makes the two one store. -/
theorem storeBytes_over {buf : Nat → Char} {o o' : Nat} {s : List Char} (t v u : List Char)
    (hs : s = t ++ v) (ho : o' = o + t.length) (h : v.length ≤ u.length) :
    storeBytes (storeBytes buf (o, s)) (o', u) = storeBytes buf (o, t ++ u) := by
  subst hs ho
  funext j
  simp only [storeBytes, List.length_append]
  by_cases h1 : o + t.length ≤ j ∧ j < o + t.length + u.length
  · rw [if_pos h1, if_pos (by omega), List.getD_eq_getElem?_getD, List.getD_eq_getElem?_getD,
      List.getElem?_append_right (by omega)]
    congr 2
    omega
  · rw [if_neg h1]
    split
    · rw [if_pos (by omega), List.getD_eq_getElem?_getD, List.getD_eq_getElem?_getD,
        List.getElem?_append_left (by omega), List.getElem?_append_left (by omega)]
    · rw [if_neg (by omega)]

/-- A buffer that holds `t` and a NUL from its start reads as `t`. -/
theorem cString_storeBytes (buf : Nat → Char) (t : List Char) (n : Nat)
    (hn : t.length < n) (ht : '\x00' ∉ t) :
    cString (storeBytes buf (0, t ++ ['\x00'])) n = t := by
  obtain ⟨k, rfl⟩ : ∃ k, n = t.length + 1 + k := ⟨n - (t.length + 1), by omega⟩
  have hpre : (List.range (t.length + 1)).map (storeBytes buf (0, t ++ ['\x00'])) =
      t ++ ['\x00'] := by
    apply List.ext_getElem (by simp)
    intro j h1 h2
    simp only [List.length_map, List.length_range] at h1
    simp [storeBytes, h1, List.getD_eq_getElem?_getD]
  have hall : ∀ c ∈ t, (c != '\x00') = true := fun c hc =>
    bne_iff_ne.mpr fun h => ht (h ▸ hc)
  rw [cString, List.range_add, List.map_append, hpre, List.append_assoc,
    List.takeWhile_append_of_pos hall, List.singleton_append, List.takeWhile_cons]
  simp

/-- The stores of `device_probe_address` come to one store of the text and its NUL. -/
theorem strAddrStores_fold (a : ZeroconfAddrinfo) (buf : Nat → Char) :
    (strAddrStores a).foldl storeBytes buf =
      storeBytes buf (0, (deviceProbeStrAddr a).data ++ ['\x00']) := by
  obtain ⟨⟨proto, data, hlen⟩, port, rs, iface, ll⟩ := a
  cases proto with
  | inet => rfl
  | inet6 =>
    simp only [strAddrStores, deviceProbeStrAddr, List.foldl_cons, List.foldl_nil,
      List.foldl_append, List.cons_append, List.nil_append]
    generalize hl : (avahiAddressSnprint _).data = lit
    cases ll with
    | false =>
      simp only [if_false, Bool.false_eq_true, List.foldl_nil]
      rw [storeBytes_over ['['] [] (lit ++ ['\x00']) (by rfl) (by rfl) (Nat.zero_le _),
        storeBytes_over ('[' :: lit) ['\x00'] [']'] (by simp) (by simp; omega) le_rfl,
        storeBytes_over ('[' :: lit ++ [']']) [] ['\x00'] (by simp) (by simp; omega)
          (Nat.zero_le _)]
      simp [← hl]
    | true =>
      simp only [if_true, List.foldl_cons, List.foldl_nil]
      generalize hz : ("%25" ++ toString iface.toInt).data = zone
      rw [storeBytes_over ['['] [] (lit ++ ['\x00']) (by rfl) (by rfl) (Nat.zero_le _),
        storeBytes_over ('[' :: lit) ['\x00'] (zone ++ ['\x00']) (by simp) (by simp; omega)
          (by simp),
        storeBytes_over ('[' :: lit ++ zone) ['\x00'] [']'] (by simp) (by simp; omega) le_rfl,
        storeBytes_over ('[' :: lit ++ zone ++ [']']) [] ['\x00'] (by simp) (by simp; omega)
          (Nat.zero_le _)]
      simp [← hl, ← hz]

/-- **Every store into `str_addr` stays within its 128 bytes**, and the literal with its NUL
fits the size `avahi_address_snprint` is given, so it is never cut short. -/
theorem strAddr_fits (a : ZeroconfAddrinfo) :
    (avahiAddressSnprint a.addr).length + 1 ≤ snprintSize a.addr.proto ∧
      ∀ st ∈ strAddrStores a, st.1 + st.2.length ≤ strAddrSize := by
  have hlit := (avahiAddressSnprint_chars_length a.addr).2
  have hzone : (toString a.interface.toInt).length ≤ 11 := by
    have := (zone_chars_length a.interface).2
    rw [String.length_append, show "%25".length = 3 from rfl] at this
    omega
  unfold strAddrStores snprintSize strAddrSize
  split <;> refine ⟨by omega, ?_⟩
  · simp only [List.mem_singleton, forall_eq, List.length_append, List.length_singleton,
      String.length_data]
    omega
  · cases a.linklocal <;> simp <;> omega

theorem strAddr_fits_linklocal :
    (avahiAddressSnprint
        ⟨.inet6, [0xfe, 0x80, 0, 0, 0, 0, 0, 0, 0, 0, 0, 0, 0, 0, 0, 1], rfl⟩).length + 1 ≤
      snprintSize .inet6 ∧
      ∀ st ∈ strAddrStores
        ⟨⟨.inet6, [0xfe, 0x80, 0, 0, 0, 0, 0, 0, 0, 0, 0, 0, 0, 0, 0, 1], rfl⟩, 8080, some "eSCL",
          2, true⟩,
        st.1 + st.2.length ≤ strAddrSize :=
  strAddr_fits
    ⟨⟨.inet6, [0xfe, 0x80, 0, 0, 0, 0, 0, 0, 0, 0, 0, 0, 0, 0, 0, 1], rfl⟩, 8080, some "eSCL",
          2, true⟩

/-- **The stores build the text of `str_addr`**: whatever the buffer held, its C string is
then `deviceProbeStrAddr`. -/
theorem strAddr_text (a : ZeroconfAddrinfo) (buf : Nat → Char) :
    cString ((strAddrStores a).foldl storeBytes buf) strAddrSize = (deviceProbeStrAddr a).data := by
  obtain ⟨hc, hl⟩ := probeHost_chars_length a
  have hnul : '\x00' ∉ (probeHost a).data := fun h => absurd (hc _ h) (by decide)
  rw [strAddrStores_fold, deviceProbeStrAddr_data]
  unfold strAddrSize
  split
  · exact cString_storeBytes _ _ _ (by rw [String.length_data]; omega) hnul
  · refine cString_storeBytes _ _ _ (by simp; omega) ?_
    simpa using hnul

theorem strAddr_text_linklocal :
    cString ((strAddrStores
        ⟨⟨.inet6, [0xfe, 0x80, 0, 0, 0, 0, 0, 0, 0, 0, 0, 0, 0, 0, 0, 1], rfl⟩, 8080, some "eSCL",
          2, true⟩).foldl
        storeBytes fun _ => 'x') strAddrSize = "[fe80::1%252]".data :=
  (strAddr_text _ _).trans (by decide)

/-! ## 3. What libsoup keeps of plain text -/

/-- `span` keeps a chunk whose every element passes. -/
theorem span_append_of_all {α : Type} {p : α → Bool} {l : List α} (h : ∀ x ∈ l, p x = true)
    (r : List α) : (l ++ r).span p = (l ++ (r.span p).1, (r.span p).2) := by
  simp only [List.span_eq_take_drop, List.takeWhile_append_of_pos h,
    List.dropWhile_append_of_pos h]

@[simp] theorem splitAtChar_nil (c : Char) : splitAtChar c [] = ([], none) := rfl

@[simp] theorem splitAtChar_cons_self (c : Char) (r : List Char) :
    splitAtChar c (c :: r) = ([], some r) := by
  simp [splitAtChar]

/-- A chunk with no `c` is kept whole in the text before the first `c`. -/
theorem splitAtChar_append {c : Char} {l : List Char} (h : c ∉ l) (r : List Char) :
    splitAtChar c (l ++ r) = (l ++ (splitAtChar c r).1, (splitAtChar c r).2) := by
  have hl : ∀ x ∈ l, (x != c) = true := fun x hx => bne_iff_ne.mpr fun hx' => h (hx' ▸ hx)
  unfold splitAtChar
  rw [span_append_of_all hl]
  rcases r.span (· != c) with ⟨pre, _ | ⟨x, post⟩⟩ <;> rfl

/-- A text with no `c` is all before it. -/
theorem splitAtChar_of_not_mem {c : Char} {l : List Char} (h : c ∉ l) :
    splitAtChar c l = (l, none) := by
  simpa using splitAtChar_append h []

/-- A first character other than `c` is kept before it. -/
theorem splitAtChar_cons {c x : Char} (h : x ≠ c) (r : List Char) :
    splitAtChar c (x :: r) = (x :: (splitAtChar c r).1, (splitAtChar c r).2) :=
  splitAtChar_append (l := [x]) (by simpa [eq_comm] using h) r

/-- A scan over a chunk with no `%` copies the chunk. -/
theorem pctScan_append (e : Char → Char → List Char) {l : List Char} (h : '%' ∉ l)
    (r : List Char) : pctScan e none (l ++ r) = l ++ pctScan e none r := by
  induction l with
  | nil => rfl
  | cons c l ih =>
    have hc : c ≠ '%' := fun hc => h (hc ▸ List.mem_cons_self _ _)
    rw [List.cons_append, pctScan, if_neg hc, ih fun h' => h (List.mem_cons_of_mem _ h'),
      List.cons_append]

theorem pctScan_of_not_mem (e : Char → Char → List Char) {l : List Char} (h : '%' ∉ l) :
    pctScan e none l = l := by
  simpa [pctScan] using pctScan_append e h []

/-- The escape `%25` of a zone index decodes to `%`. -/
theorem uriDecodedCopy_zone {lit zone : List Char} (h1 : '%' ∉ lit) (h2 : '%' ∉ zone) :
    uriDecodedCopy (lit ++ '%' :: '2' :: '5' :: zone) = lit ++ '%' :: zone := by
  rw [uriDecodedCopy, pctScan_append _ h1, pctScan, if_pos rfl, pctScan, if_pos (by decide),
    pctScan, if_pos (by decide), pctScan_of_not_mem _ h2]
  rfl

theorem bracketHostDecoded_of_not_mem {l : List Char} (h : '%' ∉ l) :
    bracketHostDecoded l = true := by
  rw [bracketHostDecoded, List.dropWhile_eq_nil_iff.mpr fun c hc => by
    simp only [bne_iff_ne, ne_eq]
    rintro rfl
    exact h hc]

theorem bracketHostDecoded_zone {lit zone : List Char} (h : '%' ∉ lit) :
    bracketHostDecoded (lit ++ '%' :: '2' :: '5' :: zone) = true := by
  rw [bracketHostDecoded, List.dropWhile_append_of_pos fun c hc => by
    simp only [bne_iff_ne, ne_eq]
    rintro rfl
    exact h hc]
  rfl

/-- The fix-up pass keeps graphic text. -/
theorem uriEscapeNonGraphic_of_graph :
    ∀ {l : List Char}, (∀ c ∈ l, asciiIsGraph c = true) → uriEscapeNonGraphic l = l
  | [], _ => rfl
  | c :: l, h => by
    rw [uriEscapeNonGraphic, if_pos (h c (List.mem_cons_self _ _)),
      uriEscapeNonGraphic_of_graph fun x hx => h x (List.mem_cons_of_mem _ hx)]
    rfl

/-- `uri_normalized_copy` keeps graphic text with no `%`. -/
theorem uriNormalizedCopy_of_plain {l : List Char}
    (h : ∀ c ∈ l, asciiIsGraph c = true ∧ c ≠ '%') : uriNormalizedCopy l = l := by
  rw [uriNormalizedCopy, uriUnescapeUnreserved, pctScan_of_not_mem _ fun hp => (h _ hp).2 rfl,
    uriEscapeNonGraphic_of_graph fun c hc => (h c hc).1]

/-- No `/./` after `p`: the first loop keeps the text. -/
theorem dropDotSlashes_of_no_dot :
    ∀ (x : List Char) (p : Char), ¬ ['/', '.', '/'] <:+: p :: x → dropDotSlashes (p = '/') x = x
  | [], _, _ => by rw [dropDotSlashes.eq_3]
  | y :: x, p, h => by
    rw [dropDotSlashes.eq_2 _ _ _ fun x' hp hy hx => h ⟨[], x', by simp_all⟩,
      dropDotSlashes_of_no_dot x y fun h' => h (h'.trans (List.suffix_cons _ _).isInfix)]

theorem dropFinalDot_of_not_suffix {l : List Char} (h : ¬ ['/', '.'] <:+ l) :
    dropFinalDot l = l := by
  rw [dropFinalDot, if_neg]
  rintro ⟨-, h1, h2⟩
  obtain ⟨l1, rfl⟩ := List.getLast?_eq_some_iff.mp h1
  rw [List.dropLast_concat] at h2
  obtain ⟨l2, rfl⟩ := List.getLast?_eq_some_iff.mp h2
  exact h ⟨l2, by simp⟩

/-- A pass of the second loop takes something out only at a `/../`. -/
theorem dropSegDotDot_some_has_dotdot (seg : Option (List Char)) (x : List Char)
    {r : List Char} (h : dropSegDotDot seg x = some r) : ['/', '.', '.', '/'] <:+: x := by
  induction seg, x using dropSegDotDot.induct generalizing r with
  | case1 rest ih =>
    obtain ⟨r', hr', -⟩ := Option.map_eq_some'.mp h
    exact (ih hr').trans (List.suffix_append ['.', '.', '/'] rest).isInfix
  | case2 c rest hne ih =>
    rw [dropSegDotDot.eq_2 _ _ hne] at h
    exact (ih h).trans (List.suffix_cons _ _).isInfix
  | case3 _ rest => exact (List.prefix_append ['/', '.', '.', '/'] rest).isInfix
  | case4 seg rest hne ih =>
    rw [dropSegDotDot.eq_4 _ _ hne] at h
    obtain ⟨r', hr', -⟩ := Option.map_eq_some'.mp h
    exact (ih hr').trans (List.suffix_cons _ _).isInfix
  | case5 seg c rest hne hc ih =>
    rw [dropSegDotDot.eq_5 _ _ _ hne hc] at h
    exact (ih h).trans (List.suffix_cons _ _).isInfix
  | case6 seg => cases seg <;> cases h

/-- A pass of the second loop shortens the text from the start of the segment it began in. -/
theorem dropSegDotDot_length (seg : Option (List Char)) (x : List Char) {r : List Char}
    (h : dropSegDotDot seg x = some r) : r.length < (seg.getD [] ++ x).length := by
  induction seg, x using dropSegDotDot.induct generalizing r with
  | case1 rest ih =>
    obtain ⟨r', hr', rfl⟩ := Option.map_eq_some'.mp h
    have := ih hr'
    simp only [Option.getD_none, List.nil_append, List.length_append, List.length_cons,
      List.length_nil] at this ⊢
    omega
  | case2 c rest hne ih =>
    rw [dropSegDotDot.eq_2 _ _ hne] at h
    simpa using ih h
  | case3 _ rest =>
    cases h
    simp only [Option.getD_some, List.length_append, List.length_cons]
    omega
  | case4 seg rest hne ih =>
    rw [dropSegDotDot.eq_4 _ _ hne] at h
    obtain ⟨r', hr', rfl⟩ := Option.map_eq_some'.mp h
    have := ih hr'
    simp only [Option.getD_none, Option.getD_some, List.nil_append, List.length_append,
      List.length_cons, List.length_nil] at this ⊢
    omega
  | case5 seg c rest hne hc ih =>
    rw [dropSegDotDot.eq_5 _ _ _ hne hc] at h
    simpa using ih h
  | case6 seg => cases seg <;> cases h

/-- **The fuel of the second loop never runs out**: with the length of the text as fuel the
loop ends where the C loop does, at a text where a pass finds nothing. -/
theorem dropSegDotDots_done : ∀ (n : Nat) (x : List Char), x.length ≤ n →
    dropSegDotDot none (dropSegDotDots n x) = none
  | 0, [], _ => rfl
  | n + 1, x, hx => by
    rw [dropSegDotDots]
    cases h : dropSegDotDot none x with
    | none => exact h
    | some r =>
      have := dropSegDotDot_length none x h
      exact dropSegDotDots_done n r (by simp at this; omega)

theorem dropSegDotDots_of_no_dotdot {x : List Char} (h : ¬ ['/', '.', '.', '/'] <:+: x) :
    ∀ n, dropSegDotDots n x = x
  | 0 => rfl
  | n + 1 => by
    rw [dropSegDotDots]
    cases hx : dropSegDotDot none x with
    | none => rfl
    | some r => exact absurd (dropSegDotDot_some_has_dotdot none x hx) h

theorem dropFinalSegDotDot_of_not_suffix {l : List Char} (h : ¬ ['/', '.', '.'] <:+ l) :
    dropFinalSegDotDot l = l := by
  unfold dropFinalSegDotDot
  split
  · next _ x xs heq =>
    exact absurd ⟨(x :: xs).reverse, by rw [← List.reverse_reverse l, heq]; simp⟩ h
  · rfl

theorem dropInitialDotDots_of_no_dotdot {l : List Char} (h1 : ¬ ['/', '.', '.', '/'] <:+: l)
    (h2 : ¬ ['/', '.', '.'] <:+ l) : dropInitialDotDots l = l := by
  unfold dropInitialDotDots
  split
  · next rest =>
    rw [if_neg, if_neg]
    · rintro rfl
      exact h2 (List.suffix_refl _)
    · intro hr
      cases rest with
      | nil => cases hr
      | cons c rest =>
        obtain rfl : c = '/' := by simpa using hr
        exact h1 ⟨[], rest, rfl⟩
  · rfl

/-- **A path with no segment `.` or `..` keeps its text**: no `/./` or `/../` in it, and no
final `/.` or `/..`. -/
theorem removeDotSegments_of_plain {c : Char} {x : List Char}
    (h1 : ¬ ['/', '.', '/'] <:+: c :: x) (h2 : ¬ ['/', '.', '.', '/'] <:+: c :: x)
    (h3 : ¬ ['/', '.'] <:+ c :: x) (h4 : ¬ ['/', '.', '.'] <:+ c :: x) :
    removeDotSegments (c :: x) = c :: x := by
  rw [removeDotSegments, dropDotSlashes_of_no_dot x c h1, dropFinalDot_of_not_suffix h3]
  dsimp only
  rw [dropSegDotDots_of_no_dotdot fun h => h2 (h.trans (List.suffix_cons _ _).isInfix),
    dropFinalSegDotDot_of_not_suffix h4, dropInitialDotDots_of_no_dotdot h2 h4]

/-- A text that starts with no whitespace and ends in `/` loses only its tabs and line breaks
to the clean-up. -/
theorem uriClean_eq {c : Char} {t init : List Char} (hc : asciiIsSpace c = false)
    (h : c :: t = init ++ ['/']) : uriClean (c :: t) = (c :: t).filter notTabOrBreak := by
  rw [uriClean, List.dropWhile_cons_of_neg (by simp [hc]), h, List.filter_append]
  simp [notTabOrBreak, asciiIsSpace]

/-! ## 4. The parse of a probe URL -/

/-- `http:` is read as the scheme `http`. -/
theorem parseScheme_http (rest : List Char) :
    parseScheme ('h' :: 't' :: 't' :: 'p' :: ':' :: rest) = (some "http", rest) := by
  have h : ∀ x ∈ "ttp".data, isSchemeChar x = true := by decide
  rw [show 'h' :: 't' :: 't' :: 'p' :: ':' :: rest = 'h' :: ("ttp".data ++ ':' :: rest) from rfl,
    parseScheme, if_pos (show 'h'.isAlpha = true by decide), span_append_of_all h]
  rfl

/-- The value of a decimal digit character. -/
theorem digitChar_sub (k : Nat) (hk : k < 10) : (Nat.digitChar k).toNat - '0'.toNat = k :=
  (by decide : ∀ k < 10, (Nat.digitChar k).toNat - '0'.toNat = k) k hk

/-- The digit loop of `parsePort` over `Nat.toDigitsCore`, with fuel enough for `n`: the
digits of `n` read back as `n`, the last digit coming off the end. -/
theorem foldl_toDigitsCore : ∀ (f n : Nat) (ds : List Char), n < f →
    (Nat.toDigitsCore 10 f n ds).foldl (fun n c => 10 * n + (c.toNat - '0'.toNat)) 0 =
      ds.foldl (fun n c => 10 * n + (c.toNat - '0'.toNat)) n
  | 0, _, _, h => absurd h (Nat.not_lt_zero _)
  | f + 1, n, ds, h => by
    simp only [Nat.toDigitsCore]
    split
    · simp only [List.foldl_cons, digitChar_sub _ (Nat.mod_lt n (by decide))]
      congr 1
      omega
    · rw [foldl_toDigitsCore f _ _ (by omega), List.foldl_cons,
        digitChar_sub _ (Nat.mod_lt n (by decide)), Nat.div_add_mod]

/-- `%d` prints at least one digit. -/
theorem toDigits_ne_nil (n : Nat) : Nat.toDigits 10 n ≠ [] := by
  rw [Nat.toDigits, Nat.toDigitsCore]
  split
  · exact List.cons_ne_nil _ _
  · exact List.ne_nil_of_length_pos (by rw [Nat.toDigitsCore_lens_eq]; omega)

/-- `strtoul` reads back what `%d` printed. -/
theorem parsePort_toDigits (n : Nat) : parsePort (Nat.toDigits 10 n) = some n := by
  rw [parsePort, if_pos ⟨toDigits_ne_nil n,
    List.all_eq_true.mpr fun c hc => isDigit_of_mem_toDigits hc⟩]
  exact congrArg some (foldl_toDigitsCore (n + 1) n [] (Nat.lt_succ_self n))

/-- An unbracketed host with no `:` or `%`, then `:` and a decimal port. -/
theorem parseHostPort_port {host : List Char} (h1 : ':' ∉ host) (h2 : host.head? ≠ some '[')
    (h3 : '%' ∉ host) (n : Nat) :
    parseHostPort (host ++ ':' :: Nat.toDigits 10 n) = some (String.mk host, some n) := by
  rw [parseHostPort.eq_2]
  · simp [splitAtChar_append h1, parseColonPort, toDigits_ne_nil, parsePort_toDigits,
      uriDecodedCopy, pctScan_of_not_mem _ h3]
  · rintro rest h
    cases host with
    | nil => cases h
    | cons c host => exact h2 (by simp_all)

/-- A bracketed host with no `]`, then `:` and a decimal port: the host decoded when
`bracketHostDecoded` says so. -/
theorem parseHostPort_bracket {host : List Char} (h : ']' ∉ host) (n : Nat) :
    parseHostPort ('[' :: (host ++ ']' :: ':' :: Nat.toDigits 10 n)) =
      some (String.mk (if bracketHostDecoded host then uriDecodedCopy host else host), some n) := by
  simp [parseHostPort, splitAtChar_append h, parseColonPort, toDigits_ne_nil, parsePort_toDigits]

/-- An authority with no `@` has no user info. -/
theorem parseAuthority_of_not_mem {l : List Char} (h : '@' ∉ l) :
    parseAuthority l = (parseHostPort l).map fun (host, port) => (none, none, host, port) := by
  have := splitAtChar_append h []
  simp only [List.append_nil, splitAtChar_nil] at this
  simp only [parseAuthority, this]

/-- `soup_uri_new` of a text that cleans up to `http://`, an authority with no user info, `/`,
and any text `t`: the path, query and fragment are what `uri_normalized_copy` and the removal
of dot segments make of the parts of `t`. -/
theorem soupUriNew_http {s : String} {auth t : List Char} {host : String} {port : Nat}
    (hs : uriClean s.data = "http://".data ++ auth ++ '/' :: t)
    (ha : ∀ c ∈ auth, c ≠ '#' ∧ c ≠ '/' ∧ c ≠ '?' ∧ c ≠ '@')
    (hp : parseHostPort auth = some (host, some port)) :
    soupUriNew s = some
      { scheme := some "http", user := none, password := none, host := some host,
        port := if port = 0 then 80 else port,
        path := String.mk (removeDotSegments (uriNormalizedCopy
          ('/' :: (splitAtChar '?' (splitAtChar '#' t).1).1))),
        query := (splitAtChar '?' (splitAtChar '#' t).1).2.map
          fun q => String.mk (uriNormalizedCopy q),
        fragment := (splitAtChar '#' t).2.map fun f => String.mk (uriNormalizedCopy f) } := by
  have h1 : '#' ∉ "http://".data ++ auth ++ ['/'] := by
    simp only [List.mem_append, not_or]
    exact ⟨⟨by decide, fun h => (ha _ h).1 rfl⟩, by decide⟩
  have h2 : ∀ x ∈ auth, (x != '/' && x != '?') = true := fun x hx => by
    simp [(ha x hx).2.1, (ha x hx).2.2.1]
  have h3 : '@' ∉ auth := fun h => (ha _ h).2.2.2 rfl
  have h4 : ∀ r : List Char, ('/' :: r).span (fun c => c != '/' && c != '?') = ([], '/' :: r) :=
    fun r => rfl
  have hsplit := splitAtChar_append h1 t
  simp only [List.append_assoc, List.singleton_append] at hsplit
  rw [soupUriNew, soupUriNewWithBase, if_neg (by simp), show s.toList = s.data from rfl, hs,
    List.append_assoc, hsplit]
  dsimp -zeta only
  rw [show "http://".data ++ (auth ++ '/' :: (splitAtChar '#' t).1) = 'h' :: 't' :: 't' :: 'p' ::
    ':' :: '/' :: '/' :: (auth ++ '/' :: (splitAtChar '#' t).1) from rfl, parseScheme_http,
    if_neg (by simp)]
  simp -zeta only [span_append_of_all h2, h4, List.append_nil, parseAuthority_of_not_mem h3, hp,
    Option.map_some']
  dsimp only [Option.some_bind]
  rw [splitAtChar_cons (show '/' ≠ '?' by decide)]
  -- kept opaque, so that no step of the proof evaluates the removal of dot segments
  generalize uriNormalizedCopy _ = q
  by_cases h0 : port = 0 <;>
    simp only [h0, reduceCtorEq, ↓reduceIte, true_or, and_false, Option.getD_some,
      Option.map_some', Option.some_bind, Option.isSome_some]
  rfl

/-- The text after the port of a probe URL and its `/`: `rs` and a `/`, or nothing. -/
def probeTail : Option String → List Char
  | some rs => rs.data ++ ['/']
  | none => []

/-- The authority of a probe URL: `str_addr`, `:` and the port. -/
def probeAuthority (a : ZeroconfAddrinfo) : List Char :=
  (deviceProbeStrAddr a).data ++ ':' :: Nat.toDigits 10 a.port.toNat

/-- The probe URL: `http://`, the authority, `/`, and the text after it. -/
theorem deviceProbeUrl_eq (a : ZeroconfAddrinfo) :
    deviceProbeUrl a = String.mk ("http://".data ++ probeAuthority a ++ '/' :: probeTail a.rs) := by
  unfold deviceProbeUrl probeAuthority
  cases a.rs <;> apply String.ext <;> simp [probeTail] <;> rfl

/-- A host character is no tab or line break. -/
theorem notTabOrBreak_of_hostChar {c : Char} (h : hostChar c = true) : notTabOrBreak c = true := by
  simp only [notTabOrBreak, Bool.and_eq_true, bne_iff_ne, ne_eq]
  refine ⟨⟨?_, ?_⟩, ?_⟩ <;> rintro rfl <;> exact absurd h (by decide)

/-- The characters of the authority of a probe URL: host characters, or its brackets. -/
theorem probeAuthority_chars (a : ZeroconfAddrinfo) :
    ∀ c ∈ probeAuthority a, hostChar c = true ∨ c = '[' ∨ c = ']' := by
  intro c hc
  have hhost := (probeHost_chars_length a).1
  have hport : ∀ c ∈ ':' :: Nat.toDigits 10 a.port.toNat, hostChar c = true := by
    intro c hc
    rcases List.mem_cons.mp hc with rfl | hc
    · decide
    · simp [hostChar, litChar, isDigit_of_mem_toDigits hc]
  rw [probeAuthority, deviceProbeStrAddr_data] at hc
  split at hc
  · rcases List.mem_append.mp hc with hc | hc
    exacts [.inl (hhost c hc), .inl (hport c hc)]
  · simp only [List.cons_append, List.append_assoc, List.singleton_append] at hc
    rcases List.mem_cons.mp hc with rfl | hc
    · exact .inr (.inl rfl)
    rcases List.mem_append.mp hc with hc | hc
    · exact .inl (hhost c hc)
    rcases List.mem_cons.mp hc with rfl | hc
    exacts [.inr (.inr rfl), .inl (hport c hc)]

/-- The clean-up takes only the tabs and line breaks of `rs` out of a probe URL. -/
theorem probeUrl_clean (a : ZeroconfAddrinfo) :
    uriClean (deviceProbeUrl a).data =
      "http://".data ++ probeAuthority a ++ '/' :: (probeTail a.rs).filter notTabOrBreak := by
  have hend : ∃ init, "http://".data ++ probeAuthority a ++ '/' :: probeTail a.rs =
      init ++ ['/'] := by
    cases a.rs with
    | none => exact ⟨"http://".data ++ probeAuthority a, by simp [probeTail]⟩
    | some rs => exact ⟨"http://".data ++ probeAuthority a ++ '/' :: rs.data, by simp [probeTail]⟩
  obtain ⟨init, hinit⟩ := hend
  have hauth : ∀ c ∈ probeAuthority a, notTabOrBreak c = true := fun c hc => by
    rcases probeAuthority_chars a c hc with hc | rfl | rfl
    exacts [notTabOrBreak_of_hostChar hc, rfl, rfl]
  rw [deviceProbeUrl_eq, show (String.mk ("http://".data ++ probeAuthority a ++
    '/' :: probeTail a.rs)).data = 'h' :: ("ttp://".data ++ probeAuthority a ++
      '/' :: probeTail a.rs) from rfl,
    uriClean_eq (c := 'h') (t := "ttp://".data ++ probeAuthority a ++ '/' :: probeTail a.rs)
      (by decide) hinit]
  simp only [List.filter_cons, List.filter_append, List.filter_eq_self.mpr hauth]
  rfl

/-- No `%` in a decimal number. -/
theorem pct_not_mem_toString_int (i : Int) : '%' ∉ (toString i).data := by
  have hnat : ∀ n : Nat, '%' ∉ (toString n).data := fun n h =>
    absurd (isDigit_of_mem_toDigits h) (by decide)
  rcases i with m | m
  · exact hnat m
  · show '%' ∉ ("-" ++ toString (m + 1)).data
    simpa using hnat (m + 1)

/-- No `%` in an address literal. -/
theorem pct_not_mem_avahiAddressSnprint (addr : AvahiAddress) :
    '%' ∉ (avahiAddressSnprint addr).data := fun h =>
  absurd ((avahiAddressSnprint_chars_length addr).1 _ h) (by decide)

/-- The host `soup_uri_new` makes of a probe URL: the address literal, and for a link-local
IPv6 address `%` and the interface number, the `%25` decoded. -/
def probeUriHost (a : ZeroconfAddrinfo) : String :=
  match a.addr.proto with
  | .inet => avahiAddressSnprint a.addr
  | .inet6 =>
    avahiAddressSnprint a.addr ++ (if a.linklocal then "%" ++ toString a.interface.toInt else "")

/-- The authority of a probe URL: no character ends it early, and it parses to the host
`probeUriHost` and the port. -/
theorem probeAuthority_parse (a : ZeroconfAddrinfo) :
    (∀ c ∈ probeAuthority a, c ≠ '#' ∧ c ≠ '/' ∧ c ≠ '?' ∧ c ≠ '@') ∧
    parseHostPort (probeAuthority a) = some (probeUriHost a, some a.port.toNat) := by
  refine ⟨fun c hc => ?_, ?_⟩
  · rcases probeAuthority_chars a c hc with hc | rfl | rfl
    exacts [(hostChar_ne hc).2.2, by decide, by decide]
  have hlit := pct_not_mem_avahiAddressSnprint a.addr
  have hhost := (probeHost_chars_length a).1
  rw [probeAuthority, deviceProbeStrAddr_data]
  unfold probeUriHost
  split
  · next h =>
    have hcolon : ':' ∉ (probeHost a).data := fun hc => by
      simp only [probeHost, avahiAddressSnprint, h] at hc
      rcases (inetNtop4_chars_length _).1 _ hc with h | h <;> exact absurd h (by decide)
    rw [parseHostPort_port hcolon ?_ (by simpa [probeHost, h] using hlit)]
    · simp [probeHost, h]
    · cases hp : (probeHost a).data with
      | nil => simp
      | cons c l => simpa using (hostChar_ne (hhost c (by simp [hp]))).1
  · next h =>
    rw [show '[' :: (probeHost a).data ++ [']'] ++ ':' :: Nat.toDigits 10 a.port.toNat =
        '[' :: ((probeHost a).data ++ ']' :: ':' :: Nat.toDigits 10 a.port.toNat) by simp,
      parseHostPort_bracket (fun h => (hostChar_ne (hhost _ h)).2.1 rfl) a.port.toNat]
    cases hl : a.linklocal
    · simp [probeHost, h, hl, bracketHostDecoded_of_not_mem hlit, uriDecodedCopy,
        pctScan_of_not_mem _ hlit]
    · have hz := pct_not_mem_toString_int a.interface.toInt
      have hdata : (probeHost a).data = (avahiAddressSnprint a.addr).data ++
          '%' :: '2' :: '5' :: (toString a.interface.toInt).data := by
        simp [probeHost, h, hl]
      rw [hdata, bracketHostDecoded_zone hlit, if_pos rfl, uriDecodedCopy_zone hlit hz]
      simp
      rfl

/-- **The probe URL always parses**, so the `g_assert` after `soup_uri_new` holds: an `http`
URI with no user info, whose host is the address literal without brackets (for a link-local
IPv6 address with `%` and the interface number, the `%25` decoded), and whose port is the
candidate's (80 for port 0). -/
theorem soupUriNew_deviceProbeUrl (a : ZeroconfAddrinfo) :
    ∃ u, soupUriNew (deviceProbeUrl a) = some u ∧ u.scheme = some "http" ∧ u.user = none ∧
      u.password = none ∧ u.host = some (probeUriHost a) ∧
      u.port = (if a.port.toNat = 0 then 80 else a.port.toNat) :=
  ⟨_, soupUriNew_http (probeUrl_clean a) (probeAuthority_parse a).1 (probeAuthority_parse a).2,
    rfl, rfl, rfl, rfl, rfl⟩

theorem soupUriNew_deviceProbeUrl_linklocal :
    ∃ u, soupUriNew (deviceProbeUrl
        ⟨⟨.inet6, [0xfe, 0x80, 0, 0, 0, 0, 0, 0, 0, 0, 0, 0, 0, 0, 0, 1], rfl⟩, 8080, some "eSCL",
          2, true⟩) = some u ∧ u.host = some "fe80::1%2" ∧ u.port = 8080 :=
  let ⟨u, h1, _, _, _, h4, h5⟩ := soupUriNew_deviceProbeUrl
    ⟨⟨.inet6, [0xfe, 0x80, 0, 0, 0, 0, 0, 0, 0, 0, 0, 0, 0, 0, 0, 1], rfl⟩, 8080, some "eSCL", 2,
      true⟩
  ⟨u, h1, h4.trans (by decide), h5.trans (by decide)⟩

/-- Every probe URL parses to a base with a scheme, a host and a port, so that the assertion
of `device_probe_address` on `base_url` and the one of `device_http_get` on the request hold. -/
theorem deviceProbeUrl_base (a : ZeroconfAddrinfo) :
    ∃ b, soupUriNew (deviceProbeUrl a) = some b ∧ b.scheme ≠ none ∧ b.host ≠ none ∧ b.port ≠ 0 :=
  ⟨_, soupUriNew_http (probeUrl_clean a) (probeAuthority_parse a).1 (probeAuthority_parse a).2,
    Option.some_ne_none _, Option.some_ne_none _, by dsimp only; split <;> omega⟩

/-! ## 5. Paths that end in `/` -/

/-- A one-character slice of a text equals `/` exactly when that character is `/`. -/
theorem slice_beq_slash {s : String} {p : Nat} {c : Char} (hg : s.get ⟨p⟩ = c)
    (hle : p + c.utf8Size ≤ s.endPos.byteIdx) :
    (Substring.mk s ⟨p⟩ ⟨p + c.utf8Size⟩ == "/".toSubstring) = true ↔ c = '/' := by
  simp only [BEq.beq, Substring.beq, Substring.bsize, String.substrEq,
    show "/".toSubstring = ⟨"/", 0, ⟨1⟩⟩ from rfl, show "/".endPos = ⟨1⟩ from rfl,
    Nat.sub_eq, Nat.add_sub_cancel_left, hle, decide_True, Bool.true_and]
  rw [String.substrEq.loop, dif_pos (Nat.lt_add_of_pos_right c.utf8Size_pos)]
  simp only [hg, show "/".get 0 = '/' from rfl]
  by_cases hc : c = '/'
  · subst hc
    rw [String.substrEq.loop, dif_neg (by simp)]
    simp [show '/'.utf8Size = 1 from rfl]
  · simp [hc]

/-- The last character of a text is `/`: `String.endsWith` compares the bytes of the last
character with those of `/`. -/
theorem endsWith_slash_iff (cs : List Char) :
    (String.mk cs).endsWith "/" = true ↔ cs.getLast? = some '/' := by
  rcases cs.eq_nil_or_concat with rfl | ⟨l, c, rfl⟩
  · decide
  rw [List.concat_eq_append, List.getLast?_concat, Option.some_inj]
  have hp : (String.mk (l ++ [c])).prev ⟨String.utf8Len l + c.utf8Size⟩ =
      ⟨String.utf8Len l⟩ := String.prev_of_valid l c []
  have h0 : ∀ p : String.Pos, 0 + p = p := fun p => String.Pos.ext (Nat.zero_add _)
  have htake : (String.mk (l ++ [c])).toSubstring.takeRight 1 =
      ⟨String.mk (l ++ [c]), ⟨String.utf8Len l⟩, ⟨String.utf8Len l + c.utf8Size⟩⟩ := by
    simp only [Substring.takeRight, String.toSubstring, Substring.prevn, Substring.bsize,
      Substring.prev, String.endPos_eq, String.utf8Len_append, String.utf8Len_cons,
      String.utf8Len_nil, String.Pos.ext_iff, String.Pos.add_byteIdx, Nat.sub_zero, hp]
    rw [if_neg (by simp; have := c.utf8Size_pos; omega)]
    simp [h0, hp]
  rw [String.endsWith, show "/".length = 1 from rfl, htake]
  exact slice_beq_slash (by simpa using String.get_of_valid l [c]) (by simp)

/-- Appending `/` gives a text that ends in `/`. -/
theorem endsWith_append_slash (s : String) : (s ++ "/").endsWith "/" = true := by
  show (String.mk (s.data ++ ['/'])).endsWith "/" = true
  rw [endsWith_slash_iff, List.getLast?_concat]

/-- A character `soup_uri_new` keeps as it is in a path, and that starts no query or
fragment: graphic, and none of `%`, `?` and `#`. -/
def plainPathChar (c : Char) : Bool := asciiIsGraph c && c != '%' && c != '?' && c != '#'

/-- A resource path that `soup_uri_new` keeps whole: plain characters, and no segment `.` or
`..`, so that `/rs/` has no `/./` and no `/../`. -/
def PlainRs (rs : String) : Prop :=
  (∀ c ∈ rs.data, plainPathChar c = true) ∧ ¬ ['/', '.', '/'] <:+: '/' :: rs.data ++ ['/'] ∧
    ¬ ['/', '.', '.', '/'] <:+: '/' :: rs.data ++ ['/']

instance (rs : String) : Decidable (PlainRs rs) := inferInstanceAs (Decidable (_ ∧ _ ∧ _))

theorem plainPathChar_spec {c : Char} (h : plainPathChar c = true) :
    (asciiIsGraph c = true ∧ c ≠ '%') ∧ c ≠ '?' ∧ c ≠ '#' ∧ notTabOrBreak c = true := by
  simp only [plainPathChar, Bool.and_eq_true, bne_iff_ne, ne_eq] at h
  refine ⟨⟨h.1.1.1, h.1.1.2⟩, h.1.2, h.2, ?_⟩
  simp only [notTabOrBreak, Bool.and_eq_true, bne_iff_ne, ne_eq]
  refine ⟨⟨?_, ?_⟩, ?_⟩ <;> rintro rfl <;> exact absurd h.1.1.1 (by decide)

/-- A pattern that ends in `.` is no suffix of a path that ends in another character. -/
theorem not_suffix_of_getLast {pat l : List Char} {x : Char} (hp : pat.getLast? = some '.')
    (hl : l.getLast? = some x) (hx : x ≠ '.') : ¬ pat <:+ l := by
  rintro ⟨t, rfl⟩
  rw [List.getLast?_append, hp] at hl
  exact hx (Option.some.inj hl).symm

/-- A pattern of `/` and `.` in a text followed by text with neither lies in the text. -/
theorem infix_of_append_right {pat l r : List Char} (hpat : ∀ c ∈ pat, c = '/' ∨ c = '.')
    (hr : ∀ c ∈ r, c ≠ '/' ∧ c ≠ '.') (hne : pat ≠ []) (h : pat <:+: l ++ r) : pat <:+: l := by
  have hd : ∀ c ∈ pat, c ∈ r → False := fun c hc hcr => by
    rcases hpat c hc with rfl | rfl
    exacts [(hr _ hcr).1 rfl, (hr _ hcr).2 rfl]
  obtain ⟨s, t, hst⟩ := h
  rw [List.append_assoc] at hst
  rcases List.append_eq_append_iff.mp hst with ⟨a', rfl, h2⟩ | ⟨c', rfl, h2⟩
  · rcases List.append_eq_append_iff.mp h2 with ⟨b, rfl, -⟩ | ⟨c'', hpc, hr'⟩
    · exact ⟨s, b, by simp⟩
    · cases c'' with
      | nil => exact ⟨s, [], by simp [hpc]⟩
      | cons x c'' => exact absurd (hr' ▸ List.mem_cons_self x _) (hd x (by simp [hpc]))
  · obtain ⟨x, pat', rfl⟩ := List.exists_cons_of_ne_nil hne
    exact absurd (h2 ▸ by simp) (hd x (List.mem_cons_self _ _))

/-- The path of a plain resource path is kept: `uri_normalized_copy` and the removal of dot
segments leave `/rs/` as it is. -/
theorem resourcePath_kept {rs : String} (h : PlainRs rs) :
    removeDotSegments (uriNormalizedCopy ('/' :: rs.data ++ ['/'])) = '/' :: rs.data ++ ['/'] := by
  have hlast : ('/' :: rs.data ++ ['/']).getLast? = some '/' := List.getLast?_concat ..
  rw [uriNormalizedCopy_of_plain fun c hc => ?_]
  · exact removeDotSegments_of_plain h.2.1 h.2.2 (not_suffix_of_getLast rfl hlast (by decide))
      (not_suffix_of_getLast rfl hlast (by decide))
  · simp only [List.cons_append, List.mem_cons, List.mem_append, List.mem_singleton,
      List.mem_nil_iff, or_false] at hc
    rcases hc with rfl | hc | rfl
    exacts [by decide, (plainPathChar_spec (h.1 c hc)).1, by decide]

/-- The text after the port loses nothing to the clean-up, and has no `?` and no `#`, when
`rs` is plain. -/
theorem probeTail_plain {rso : Option String} (h : ∀ rs ∈ rso, PlainRs rs) :
    (probeTail rso).filter notTabOrBreak = probeTail rso ∧ '?' ∉ probeTail rso ∧
      '#' ∉ probeTail rso := by
  cases rso with
  | none => exact ⟨rfl, by simp [probeTail], by simp [probeTail]⟩
  | some rs =>
    have hc := fun c hc => plainPathChar_spec ((h rs rfl).1 c hc)
    refine ⟨List.filter_eq_self.mpr fun c hc' => ?_, fun hq => ?_, fun hh => ?_⟩
    · simp only [probeTail, List.mem_append, List.mem_singleton] at hc'
      rcases hc' with hc' | rfl
      exacts [(hc c hc').2.2.2, rfl]
    · simp only [probeTail, List.mem_append, List.mem_singleton] at hq
      rcases hq with hq | hq
      exacts [(hc _ hq).2.1 rfl, absurd hq (by decide)]
    · simp only [probeTail, List.mem_append, List.mem_singleton] at hh
      rcases hh with hh | hh
      exacts [(hc _ hh).2.2.1 rfl, absurd hh (by decide)]

/-- The path the design gives the base URL of a candidate: `/`, or `/rs/`. -/
def resourcePath : Option String → String
  | some rs => "/" ++ rs ++ "/"
  | none => "/"

/-- The base URL of a candidate whose `rs` is absent or plain. -/
theorem soupUriNew_deviceProbeUrl_eq_plain (a : ZeroconfAddrinfo) (h : ∀ rs ∈ a.rs, PlainRs rs) :
    soupUriNew (deviceProbeUrl a) = some
      { scheme := some "http", user := none, password := none, host := some (probeUriHost a),
        port := if a.port.toNat = 0 then 80 else a.port.toNat, path := resourcePath a.rs,
        query := none, fragment := none } := by
  obtain ⟨hf, hq, hh⟩ := probeTail_plain h
  rw [soupUriNew_http (probeUrl_clean a) (probeAuthority_parse a).1 (probeAuthority_parse a).2,
    hf, splitAtChar_of_not_mem hh, splitAtChar_of_not_mem hq]
  simp only [Option.map_none', Option.some.injEq, SoupUri.mk.injEq, true_and, and_true]
  cases hrs : a.rs with
  | none => decide
  | some rs =>
    rw [probeTail, show '/' :: (rs.data ++ ['/']) = '/' :: rs.data ++ ['/'] from rfl,
      resourcePath_kept (h rs hrs)]
    exact String.ext (by simp [resourcePath])

/-- **A plain resource path is kept whole**: the base URL of a candidate whose `rs` is absent
or plain has the path `/`, or `/` then `rs` then `/`, which ends in `/`, and no query or
fragment. -/
theorem soupUriNew_deviceProbeUrl_plain (a : ZeroconfAddrinfo) (h : ∀ rs ∈ a.rs, PlainRs rs) :
    ∃ u, soupUriNew (deviceProbeUrl a) = some u ∧
      u.path = resourcePath a.rs ∧
      u.query = none ∧ u.fragment = none ∧ u.path.endsWith "/" = true := by
  refine ⟨_, soupUriNew_deviceProbeUrl_eq_plain a h, rfl, rfl, rfl, ?_⟩
  cases a.rs
  · exact (endsWith_slash_iff ['/']).mpr rfl
  · exact endsWith_append_slash _

theorem soupUriNew_deviceProbeUrl_plain_eSCL :
    ∃ u, soupUriNew (deviceProbeUrl ⟨⟨.inet, [192, 0, 2, 5], rfl⟩, 80, some "eSCL", 0,
      false⟩) = some u ∧ u.path = resourcePath (some "eSCL") ∧ u.query = none ∧
        u.fragment = none ∧ u.path.endsWith "/" = true :=
  soupUriNew_deviceProbeUrl_plain _ fun _ h => by cases h; decide

/-- **A `?` or `#` in the resource path cuts it**: the path of the base URL is `/` and the text
before the first of them, with no `/` after it, when that text is plain. -/
theorem soupUriNew_deviceProbeUrl_cut (a : ZeroconfAddrinfo) (pre post : String) (c : Char)
    (hc : c = '?' ∨ c = '#') (hpre : PlainRs pre)
    (hrs : a.rs = some (pre ++ String.singleton c ++ post)) :
    ∃ u, soupUriNew (deviceProbeUrl a) = some u ∧ u.path = "/" ++ pre := by
  have hchars := fun x hx => plainPathChar_spec (hpre.1 x hx)
  have hq : '?' ∉ pre.data := fun h => (hchars _ h).2.1 rfl
  have hh : '#' ∉ pre.data := fun h => (hchars _ h).2.2.1 rfl
  have ht : (probeTail a.rs).filter notTabOrBreak =
      pre.data ++ c :: (post.data ++ ['/']).filter notTabOrBreak := by
    have hcn : notTabOrBreak c = true := by rcases hc with rfl | rfl <;> rfl
    have hpre : pre.data.filter notTabOrBreak = pre.data :=
      List.filter_eq_self.mpr fun x hx => (hchars x hx).2.2.2
    rw [hrs, probeTail]
    simp [List.filter_append, List.filter_cons, hcn, hpre, String.singleton]
  rw [soupUriNew_http (probeUrl_clean a) (probeAuthority_parse a).1 (probeAuthority_parse a).2, ht]
  refine ⟨_, rfl, ?_⟩
  have hpath : (splitAtChar '?' (splitAtChar '#' (pre.data ++ c ::
      (post.data ++ ['/']).filter notTabOrBreak)).1).1 = pre.data := by
    rcases hc with rfl | rfl
    · rw [splitAtChar_append hh, splitAtChar_cons (by decide), splitAtChar_append hq,
        splitAtChar_cons_self]
      simp
    · rw [splitAtChar_append hh, splitAtChar_cons_self, List.append_nil,
        splitAtChar_of_not_mem hq]
  have hkeep : '/' :: pre.data ++ ['/'] = ('/' :: pre.data) ++ ['/'] := rfl
  have hinf : ∀ pat : List Char,
      pat <:+ '/' :: pre.data → pat ++ ['/'] <:+: '/' :: pre.data ++ ['/'] :=
    fun pat ⟨t, ht⟩ => ⟨t, [], by rw [← ht]; simp⟩
  dsimp only
  rw [hpath, uriNormalizedCopy_of_plain fun x hx => ?_, removeDotSegments_of_plain
    (fun h => hpre.2.1 (h.trans (List.prefix_append _ _).isInfix))
    (fun h => hpre.2.2 (h.trans (List.prefix_append _ _).isInfix))
    (fun h => hpre.2.1 (hinf _ h)) (fun h => hpre.2.2 (hinf _ h))]
  · exact String.ext (by simp)
  · rcases List.mem_cons.mp hx with rfl | hx
    exacts [by decide, (hchars x hx).1]

theorem soupUriNew_deviceProbeUrl_cut_query :
    ∃ u, soupUriNew (deviceProbeUrl ⟨⟨.inet, [192, 0, 2, 5], rfl⟩, 80, some "a?b", 0,
      false⟩) = some u ∧ u.path = "/" ++ "a" :=
  soupUriNew_deviceProbeUrl_cut _ "a" "b" '?' (.inl rfl) (by decide) (by decide)

/-- The merge with a base path that ends in `/` appends. -/
theorem mergePath_of_getLast {p : List Char} (h : p.getLast? = some '/') (rel : List Char) :
    mergePath p rel = p ++ rel := by
  obtain ⟨init, rfl⟩ := List.getLast?_eq_some_iff.mp h
  rw [mergePath, if_pos (by simp)]
  simp

/-- A request relative to a base URL with a scheme, a host and a port, by a path with no scheme,
`?` or `#` that does not start with `/` and that the clean-up and `uri_normalized_copy` keep:
the base, with the paths merged and rid of dot segments, and no query or fragment. -/
theorem soupUriNewWithBase_relative {b : SoupUri} {c : Char} {t : List Char}
    (hs : b.scheme ≠ none) (hh : b.host ≠ none) (hp : b.port ≠ 0) (hc : c ≠ '/')
    (h0 : uriClean (c :: t) = c :: t)
    (h1 : splitAtChar '#' (c :: t) = (c :: t, none)) (h2 : parseScheme (c :: t) = (none, c :: t))
    (h3 : splitAtChar '?' (c :: t) = (c :: t, none)) (h4 : uriNormalizedCopy (c :: t) = c :: t) :
    soupUriNewWithBase (some b) (String.mk (c :: t)) =
      some { b with path := String.mk (removeDotSegments (mergePath b.path.data (c :: t))),
                    query := none, fragment := none } := by
  rw [soupUriNewWithBase, if_neg (by simpa using hs),
    show (String.mk (c :: t)).toList = c :: t from rfl, h0, h1]
  dsimp -zeta only
  rw [h2, if_neg (by simp)]
  split
  · exact absurd (List.cons.inj ‹_›).1 hc
  simp only [Option.some_bind, h3, h4, reduceCtorEq, ↓reduceIte, ne_eq, not_true_eq_false, hc,
    List.head?_cons, Option.some.injEq, hh, hp, and_false, ite_self, Option.getD_some,
    Option.map_some']
  rfl

/-- The capability request relative to a base URL with a scheme, a host and a port: the base,
with the path merged with `ScannerCapabilities` and rid of dot segments, and no query or
fragment. -/
theorem soupUriNewWithBase_scannerCapabilities {b : SoupUri} (hs : b.scheme ≠ none)
    (hh : b.host ≠ none) (hp : b.port ≠ 0) :
    soupUriNewWithBase (some b) "ScannerCapabilities" =
      some { b with path := String.mk (removeDotSegments (mergePath b.path.data
                      "ScannerCapabilities".data)), query := none, fragment := none } :=
  soupUriNewWithBase_relative (t := "cannerCapabilities".data) hs hh hp (by decide) (by decide)
    rfl (by decide) rfl (by decide)

end AirscanDevice
