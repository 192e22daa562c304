/-
# Device addresses and the eSCL base URL

A device found by ZeroConf arrives as a list of `zeroconf_addrinfo`; `device_probe_address`
turns one of them into the text of a URL, hands it to `soup_uri_new`, and every request of
the device is then made relative to that base with `soup_uri_new_with_base`.  A statically
configured device instead brings a parsed `SoupURI`, whose path `device_add_static` makes end
in `/`.

This module models the three steps as the code takes them:

* `avahiAddressSnprint` is `inet_ntop`, which is what `avahi_address_snprint` calls: dotted
  quads for IPv4, and for IPv6 the 16-bit words in hex with the first longest run of at least
  two zero words written `::`, and the IPv4-mapped and IPv4-compatible forms.
* `deviceProbeStrAddr` and `deviceProbeUrl` are the `str_addr` buffer and the
  `g_strdup_printf` of `device_probe_address`.
* `soupUriNewWithBase` is the parser of `soup_uri_new_with_base` (libsoup 2): the clean-up of
  whitespace, fragment, scheme, authority with user info (decoded), host (decoded, and for a
  bracketed literal only when it has no `%` or a `%25` zone) and port, query and path through
  `uri_normalized_copy`, the RFC 3986 merge with the base, the removal of dot segments, and
  the HTTP defaults.  Each loop of the C is a recursion on the text; the two scans with a
  `%XX` look-ahead keep what they have read since the `%` as a state (`pctScan`).
-/
import Mathlib.Data.List.Basic

namespace AirscanDevice

/-! ## 1. `zeroconf_addrinfo` -/

/-- `AvahiProtocol`: the address family of an `AvahiAddress`. -/
inductive AvahiProtocol
  | inet
  | inet6
  deriving DecidableEq, Repr

/-- The size in bytes of an address of the family. -/
def AvahiProtocol.addrLen : AvahiProtocol → Nat
  | .inet => 4
  | .inet6 => 16

/-- `AvahiAddress`: the family and the address bytes, in network order. -/
structure AvahiAddress where
  proto : AvahiProtocol
  data : List UInt8
  data_length : data.length = proto.addrLen

/-- Modelled from the spec: `zeroconf_addrinfo`, declared in `airscan.h`, which is not under
`src/`.  One candidate address of a device: the fields `device_probe_address` reads (the
address, port, optional resource path `rs`, interface index and the link-local mark); the
`next` pointer of the C list is the position in the `List`. -/
structure ZeroconfAddrinfo where
  addr : AvahiAddress
  port : UInt16
  rs : Option String
  interface : BitVec 32
  linklocal : Bool

/-! ## 2. `avahi_address_snprint` -/

/-- `inet_ntop` for `AF_INET`: `%u.%u.%u.%u`. -/
def inetNtop4 (b : List UInt8) : String :=
  ".".intercalate (b.map fun x => toString x.toNat)

/-- The eight 16-bit words of an IPv6 address, as `inet_ntop6` reads them. -/
def ipv6Words : List UInt8 → List Nat
  | hi :: lo :: rest => (hi.toNat * 256 + lo.toNat) :: ipv6Words rest
  | _ => []

/-- The scan of `inet_ntop6` for the longest run of zero words: `(best, cur)` as
`(base, len)` pairs, over the words from index `i` on.  A later run replaces `best` only when
it is strictly longer. -/
def zeroRunScan : List Nat → Nat → Option (Nat × Nat) → Option (Nat × Nat) →
    Option (Nat × Nat)
  | [], _, best, cur => longerRun best cur
  | w :: ws, i, best, cur =>
    if w = 0 then
      zeroRunScan ws (i + 1) best (some (match cur with
        | none => (i, 1)
        | some (b, l) => (b, l + 1)))
    else zeroRunScan ws (i + 1) (longerRun best cur) none
where
  /-- `if (best.base == -1 || cur.len > best.len) best = cur`. -/
  longerRun : Option (Nat × Nat) → Option (Nat × Nat) → Option (Nat × Nat)
    | best, none => best
    | none, some c => some c
    | some b, some c => if c.2 > b.2 then some c else some b

/-- The run `inet_ntop6` writes as `::`: the first longest run of zero words, if it has at
least two. -/
def bestZeroRun (w : List Nat) : Option (Nat × Nat) :=
  match zeroRunScan w 0 none none with
  | some (b, l) => if l < 2 then none else some (b, l)
  | none => none

/-- `%x`. -/
def hexWord (w : Nat) : String := String.mk (Nat.toDigits 16 w)

/-- The run is the leading `::` of an IPv4-compatible (`::a.b.c.d`) or IPv4-mapped
(`::ffff:a.b.c.d`) address, whose last four bytes `inet_ntop6` prints as a dotted quad. -/
def embedsIpv4 (w : List Nat) : Option (Nat × Nat) → Bool
  | some (0, 6) => true
  | some (0, 5) => w.getD 5 0 == 0xffff
  | _ => false

/-- Word `i` lies in the run written `::`. -/
def inZeroRun (best : Option (Nat × Nat)) (i : Nat) : Bool :=
  match best with
  | some (base, len) => base ≤ i && i < base + len
  | none => false

/-- The main loop of `inet_ntop6` over the word indices: inside the `::` run only its first
word prints `:`; outside it a word prints a separator and then its hex, or, at word 6 of an
embedded IPv4 address, the dotted quad, which ends the loop. -/
def inetNtop6Loop (b : List UInt8) (w : List Nat) (best : Option (Nat × Nat)) :
    List Nat → String
  | [] => ""
  | i :: is =>
    if inZeroRun best i then
      (if best.map Prod.fst = some i then ":" else "") ++ inetNtop6Loop b w best is
    else
      (if i ≠ 0 then ":" else "") ++
        (if i = 6 ∧ embedsIpv4 w best = true then inetNtop4 (b.drop 12)
         else hexWord (w.getD i 0) ++ inetNtop6Loop b w best is)

/-- `inet_ntop` for `AF_INET6`. -/
def inetNtop6 (b : List UInt8) : String :=
  let w := ipv6Words b
  let best := bestZeroRun w
  inetNtop6Loop b w best (List.range 8) ++
    (match best with
     | some (base, len) => if base + len = 8 then ":" else ""
     | none => "")

/-- `avahi_address_snprint`: `inet_ntop` of the address. -/
def avahiAddressSnprint (a : AvahiAddress) : String :=
  match a.proto with
  | .inet => inetNtop4 a.data
  | .inet6 => inetNtop6 a.data

example : inetNtop6 [0xfe, 0x80, 0, 0, 0, 0, 0, 0, 0, 0, 0, 0, 0, 0, 0, 1] = "fe80::1" := by
  decide

example : inetNtop6 [0, 0, 0, 0, 0, 0, 0, 0, 0, 0, 0xff, 0xff, 192, 0, 2, 5] =
    "::ffff:192.0.2.5" := by
  decide

/-! ## 3. The URL text of `device_probe_address` -/

/-- `str_addr`: the IPv4 literal, or the bracketed IPv6 literal, with the `%25`-escaped zone
index when the address is link-local (RFC 6874). -/
def deviceProbeStrAddr (a : ZeroconfAddrinfo) : String :=
  match a.addr.proto with
  | .inet => avahiAddressSnprint a.addr
  | .inet6 =>
    "[" ++ avahiAddressSnprint a.addr ++
      (if a.linklocal then "%25" ++ toString a.interface.toInt else "") ++ "]"

/-- The `url` that `device_probe_address` prints. -/
def deviceProbeUrl (a : ZeroconfAddrinfo) : String :=
  match a.rs with
  | some rs => "http://" ++ deviceProbeStrAddr a ++ ":" ++ toString a.port.toNat ++ "/" ++ rs ++ "/"
  | none => "http://" ++ deviceProbeStrAddr a ++ ":" ++ toString a.port.toNat ++ "/"

/-! ## 4. `SoupURI` -/

/-- A parsed `SoupURI`: the components `soup_uri_new_with_base` fills in. -/
structure SoupUri where
  scheme : Option String
  user : Option String
  password : Option String
  host : Option String
  port : Nat
  path : String
  query : Option String
  fragment : Option String
  deriving DecidableEq, Repr

/-- `g_ascii_isspace`. -/
def asciiIsSpace (c : Char) : Bool :=
  c == ' ' || c == '\t' || c == '\n' || c == '\x0b' || c == '\x0c' || c == '\r'

/-- `g_ascii_isgraph`: printable ASCII other than the space. -/
def asciiIsGraph (c : Char) : Bool := 0x21 ≤ c.toNat && c.toNat ≤ 0x7e

/-- `g_ascii_isxdigit`. -/
def asciiIsXdigit (c : Char) : Bool :=
  c.isDigit || ('a' ≤ c && c ≤ 'f') || ('A' ≤ c && c ≤ 'F')

/-- `g_ascii_xdigit_value` of a hex digit. -/
def xdigitValue (c : Char) : Nat :=
  if c.isDigit then c.toNat - '0'.toNat
  else if 'a' ≤ c && c ≤ 'f' then c.toNat - 'a'.toNat + 10
  else c.toNat - 'A'.toNat + 10

/-- `HEXCHAR`: the byte a `%XX` escape stands for, as the character of that code. -/
def hexChar (h l : Char) : Char := Char.ofNat (16 * xdigitValue h + xdigitValue l)

/-- A digit of `%02X`. -/
def hexDigitUpper (n : Nat) : Char := if n < 10 then Char.ofNat (48 + n) else Char.ofNat (55 + n)

/-- `soup_char_is_uri_unreserved`: `ALPHA`, `DIGIT`, `-`, `.`, `_` and `~` (RFC 3986). -/
def uriUnreserved (c : Char) : Bool :=
  c.isAlpha || c.isDigit || c == '-' || c == '.' || c == '_' || c == '~'

/-! ## 5. Escapes -/

/-- The scan `soup_uri_decoded_copy` and the first pass of `uri_normalized_copy` share: the text
is copied, a `%` followed by two hex digits `h l` is replaced by `escape h l`, and a `%` that is
not is copied.  `pct` is what was read since a `%`: `none` outside an escape, `some none` right
after the `%`, `some (some h)` after its first hex digit. -/
def pctScan (escape : Char → Char → List Char) : Option (Option Char) → List Char → List Char
  | none, [] => []
  | none, c :: rest =>
    if c = '%' then pctScan escape (some none) rest else c :: pctScan escape none rest
  | some none, [] => ['%']
  | some none, h :: rest =>
    if asciiIsXdigit h then pctScan escape (some (some h)) rest
    else '%' :: (if h = '%' then pctScan escape (some none) rest
                 else h :: pctScan escape none rest)
  | some (some h), [] => ['%', h]
  | some (some h), l :: rest =>
    if asciiIsXdigit l then escape h l ++ pctScan escape none rest
    else '%' :: h :: (if l = '%' then pctScan escape (some none) rest
                      else l :: pctScan escape none rest)

/-- `soup_uri_decoded_copy`: every `%XX` escape decoded. -/
def uriDecodedCopy (l : List Char) : List Char := pctScan (fun h l => [hexChar h l]) none l

/-- The first pass of `uri_normalized_copy`: the escape of an unreserved character decoded,
every other escape kept as it is. -/
def uriUnescapeUnreserved (l : List Char) : List Char :=
  pctScan (fun h l => if uriUnreserved (hexChar h l) then [hexChar h l] else ['%', h, l]) none l

/-- `%%%02X` of a byte. -/
def pctEncodeByte (b : UInt8) : List Char :=
  ['%', hexDigitUpper (b.toNat / 16), hexDigitUpper (b.toNat % 16)]

/-- The fix-up pass of `uri_normalized_copy`: every byte of a character that is not graphic
written `%XX`.  The C runs it only when such a byte is there; on other text it changes
nothing. -/
def uriEscapeNonGraphic : List Char → List Char
  | [] => []
  | c :: rest =>
    (if asciiIsGraph c then [c] else (String.utf8EncodeChar c).flatMap pctEncodeByte) ++
      uriEscapeNonGraphic rest

/-- `uri_normalized_copy(part, length, NULL)`. -/
def uriNormalizedCopy (l : List Char) : List Char :=
  uriEscapeNonGraphic (uriUnescapeUnreserved l)

/-! ## 6. Dot segments

The four loops at the end of `soup_uri_new_with_base`, on a non-empty path; the first two
start at `path + 1`. -/

/-- "Remove `./` where `.` is a complete segment": a `./` right after a `/` is taken out, and
the text after the `/` read again.  `afterSlash` is `*(p - 1) == '/'`. -/
def dropDotSlashes : Bool → List Char → List Char
  | true, '.' :: '/' :: rest => dropDotSlashes true rest
  | _, c :: rest => c :: dropDotSlashes (c = '/') rest
  | _, [] => []

/-- "Remove `.` at end": the final `.` of a path of three characters or more ending in `/.`. -/
def dropFinalDot (l : List Char) : List Char :=
  if 2 < l.length ∧ l.getLast? = some '.' ∧ l.dropLast.getLast? = some '/' then l.dropLast else l

/-- One pass of the loop "remove `<segment>/../` where `<segment>` is not `..`", from `p`:
`seg` is `none` at the start of a segment, where `../` is stepped over, and the segment read so
far inside one.  The first segment followed by `/../` is taken out with it, and the text from
the start of the pass returned; `none` when the loop ends first. -/
def dropSegDotDot : Option (List Char) → List Char → Option (List Char)
  | none, '.' :: '.' :: '/' :: rest => (dropSegDotDot none rest).map (['.', '.', '/'] ++ ·)
  | none, c :: rest => dropSegDotDot (some [c]) rest
  | some _, '/' :: '.' :: '.' :: '/' :: rest => some rest
  | some seg, '/' :: rest => (dropSegDotDot none rest).map ((seg ++ ['/']) ++ ·)
  | some seg, c :: rest => dropSegDotDot (some (seg ++ [c])) rest
  | _, [] => none

/-- The loop restarts from `path + 1` after each removal; each pass shortens the text, so
its length is fuel enough. -/
def dropSegDotDots : Nat → List Char → List Char
  | 0, l => l
  | fuel + 1, l =>
    match dropSegDotDot none l with
    | some l' => dropSegDotDots fuel l'
    | none => l

/-- "Remove `<segment>/..` at end where `<segment>` is not `..`": `p` is the `/` before the
segment, or the first character of the path when no `/` after it precedes the segment. -/
def dropFinalSegDotDot (l : List Char) : List Char :=
  match l.reverse with
  | '.' :: '.' :: '/' :: revPre@(_ :: _) =>
    let k := ((revPre.reverse.drop 1).reverse.dropWhile (· != '/')).length
    if (l.drop k).take 4 = ['/', '.', '.', '/'] then l else l.take (k + 1)
  | _ => l

/-- "Remove extraneous initial `/..`s", and `/..` made `/`. -/
def dropInitialDotDots : List Char → List Char
  | '/' :: '.' :: '.' :: rest =>
    if rest.head? = some '/' then dropInitialDotDots rest
    else if rest = [] then ['/'] else '/' :: '.' :: '.' :: rest
  | l => l

/-- The removal of dot segments from a path. -/
def removeDotSegments : List Char → List Char
  | [] => []
  | c :: rest =>
    match dropFinalDot (c :: dropDotSlashes (c = '/') rest) with
    | [] => []
    | c :: rest => dropInitialDotDots (dropFinalSegDotDot (c :: dropSegDotDots rest.length rest))

/-! ## 7. `soup_uri_new_with_base` -/

/-- The text before the first `c`, and what follows it, if `c` occurs. -/
def splitAtChar (c : Char) (l : List Char) : List Char × Option (List Char) :=
  match l.span (· != c) with
  | (pre, []) => (pre, none)
  | (pre, _ :: post) => (pre, some post)

/-- The characters the clean-up keeps: all but tabs and line breaks. -/
def notTabOrBreak (c : Char) : Bool := c != '\t' && c != '\n' && c != '\r'

/-- The clean-up at the head of `soup_uri_new_with_base`: leading whitespace skipped, tabs and
line breaks taken out, trailing whitespace ignored. -/
def uriClean (l : List Char) : List Char :=
  (((l.dropWhile asciiIsSpace).filter notTabOrBreak).reverse.dropWhile asciiIsSpace).reverse

/-- `strtoul(p, &end, 10)` when it must consume the whole text: the value of a non-empty
run of decimal digits. -/
def parsePort (l : List Char) : Option Nat :=
  if l ≠ [] ∧ l.all Char.isDigit then
    some (l.foldl (fun n c => 10 * n + (c.toNat - '0'.toNat)) 0)
  else none

/-- The port after a `:`: none when the `:` ends the authority (`colon == path - 1`). -/
def parseColonPort (l : List Char) : Option (Option Nat) :=
  if l = [] then some none else (parsePort l).map some

/-- `soup_scheme_default_port`. -/
def soupSchemeDefaultPort : Option String → Nat
  | some "http" => 80
  | some "https" => 443
  | some "ftp" => 21
  | _ => 0

/-- A bracketed host is decoded when it has no `%`, or its first `%` is followed by `25`. -/
def bracketHostDecoded (host : List Char) : Bool :=
  match host.dropWhile (· != '%') with
  | [] => true
  | _ :: after => after.take 2 == ['2', '5']

/-- The host and port of an authority, after any user info: a bracketed IPv6 literal, which
a `:` and the port or the end of the authority must follow, or the text up to the first `:`. -/
def parseHostPort (l : List Char) : Option (String × Option Nat) :=
  match l with
  | '[' :: rest =>
    match splitAtChar ']' rest with
    | (_, none) => none
    | (host, some after) =>
      let host := String.mk (if bracketHostDecoded host then uriDecodedCopy host else host)
      match after with
      | [] => some (host, none)
      | ':' :: port => (parseColonPort port).map (host, ·)
      | _ => none
  | _ =>
    match splitAtChar ':' l with
    | (host, none) => some (String.mk (uriDecodedCopy host), none)
    | (host, some port) => (parseColonPort port).map (String.mk (uriDecodedCopy host), ·)

/-- The characters of a scheme after its first, which is a letter. -/
def isSchemeChar (c : Char) : Bool := c.isAlpha || c.isDigit || c == '.' || c == '+' || c == '-'

/-- The scheme, lower-cased, when the text starts with a letter, then letters, digits, `.`,
`+` or `-`, then `:`; and the rest. -/
def parseScheme (l : List Char) : Option String × List Char :=
  match l with
  | c :: rest =>
    if c.isAlpha then
      match rest.span isSchemeChar with
      | (sch, ':' :: after) => (some (String.mk ((c :: sch).map Char.toLower)), after)
      | _ => (none, l)
    else (none, l)
  | [] => (none, l)

/-- An authority `[user[:password]@]host[:port]`: user and password (decoded), host and port. -/
def parseAuthority (l : List Char) :
    Option (Option String × Option String × String × Option Nat) :=
  let (user, password, hostPort) := match splitAtChar '@' l with
    | (_, none) => (none, none, l)
    | (ui, some hp) =>
      match splitAtChar ':' ui with
      | (u, none) => (some (String.mk (uriDecodedCopy u)), none, hp)
      | (u, some pw) =>
        (some (String.mk (uriDecodedCopy u)), some (String.mk (uriDecodedCopy pw)), hp)
  (parseHostPort hostPort).map fun (host, port) => (user, password, host, port)

/-- RFC 3986 merge of a relative path with the base path: the base up to its last `/`. -/
def mergePath (base rel : List Char) : List Char :=
  if base.contains '/' then (base.reverse.dropWhile (· != '/')).reverse ++ rel
  else '/' :: rel

/-- `soup_uri_new_with_base`.  The path is `uri->path`, `NULL` while no text gave it one; the
base's path is not rid of dot segments again. -/
def soupUriNewWithBase (base : Option SoupUri) (s : String) : Option SoupUri :=
  if base.any (·.scheme = none) then none
  else
  let (body, fragment) := splitAtChar '#' (uriClean s.toList)
  let fragment := fragment.map fun f => String.mk (uriNormalizedCopy f)
  let (scheme, rest) := parseScheme body
  if rest = [] ∧ base = none ∧ fragment = none then
    some ⟨scheme, none, none, none, 0, "", none, none⟩
  else
    let auth : Option (Option (Option String × Option String × String × Option Nat) ×
        List Char) := match rest with
      | '/' :: '/' :: r =>
        let (a, afterAuth) := r.span (fun c => c != '/' && c != '?')
        (parseAuthority a).map fun x => (some x, afterAuth)
      | _ => some (none, rest)
    auth.bind fun (authority, afterAuth) =>
      let (pathPart, query) := splitAtChar '?' afterAuth
      let query := query.map fun q => String.mk (uriNormalizedCopy q)
      let path : Option (List Char) :=
        if pathPart = [] then none else some (uriNormalizedCopy pathPart)
      let u : SoupUri := match authority with
        | some (user, password, host, port) =>
          ⟨scheme, user, password, some host, port.getD 0, "", query, fragment⟩
        | none => ⟨scheme, none, none, none, 0, "", query, fragment⟩
      -- the base, as RFC 3986 applies it; a path taken from the base keeps its dot segments
      let (u, path, removeDots) : SoupUri × Option (List Char) × Bool := match base with
        | some b =>
          if scheme = none ∧ u.host ≠ none then ({ u with scheme := b.scheme }, path, true)
          else if scheme = none then
            match path with
            | none => ({ b with query := query <|> b.query, fragment := fragment },
                       some b.path.toList, false)
            | some p =>
              ({ b with query := query, fragment := fragment },
               some (if p.head? = some '/' then p else mergePath b.path.toList p), true)
          else (u, path, true)
        | none => (u, path, true)
      let path := if removeDots then path.map removeDotSegments else path
      let http := u.scheme = some "http" ∨ u.scheme = some "https"
      let path := if http then some (path.getD ['/']) else path
      if http ∧ u.host = none then none
      else if u.scheme = some "ftp" ∧ u.host = none then none
      else
        let u := { u with path := String.mk (path.getD []) }
        some (if u.port = 0 then { u with port := soupSchemeDefaultPort u.scheme } else u)

/-- `soup_uri_new`: a URI with no base, which must have a scheme. -/
def soupUriNew (s : String) : Option SoupUri :=
  (soupUriNewWithBase none s).bind fun u => if u.scheme.isSome then some u else none

example : soupUriNew "http://192.0.2.5:80/eSCL/" =
    some ⟨some "http", none, none, some "192.0.2.5", 80, "/eSCL/", none, none⟩ := by
  decide

example : soupUriNew " http://[fe80::1%252]:8080/a/./b/../c d/\n" =
    some ⟨some "http", none, none, some "fe80::1%2", 8080, "/a/c%20d/", none, none⟩ := by
  decide

end AirscanDevice
