import RavBot.Lib.Effect
import RavBot.Lib.InternetAddress
import RavBot.Lib.Json

/-!
# Fetching a page

`web_fetch_tool` cuts the host out of a URL by hand and refuses to open a connection when a fragment of an
internal address occurs in it.  What is cut out is the user, the host and the port, and the query when no
path is before it.  So what a fragment finds depends on how an address is written: addresses from
172.16.0.0 on have no fragment, and public ones may have one by chance.
-/

open List

namespace RavBot.Tools

open RavBot.Lib

namespace WebFetch

/-! ## The code -/

/-- A connection that the tool opens, and the path that it asks for. -/
structure Target where
  isHttps : Bool
  host : List Char
  path : List Char

structure Response where
  status : Int
  body : String
  contentType : String

def kBlocked : List (List Char) :=
  ["localhost", "127.", "0.0.0.0", "::1", "10.", "192.168.", "169.254."].map String.toList

/-- What the tool answers with. -/
def answer (url : List Char) (text : List Char) (contentType : String) (maxChars : Int) : Json :=
  let text :=
    if maxChars < (Json.toInt32 text.length) then
      (if maxChars < 0 then text else text.take maxChars.toNat) ++ "\n\n[truncated at ".toList ++
        (toString maxChars).toList ++ " chars]".toList
    else text
  .object [("url", .str (String.ofList url)), ("content", .str (String.ofList text)),
    ("contentType", .str contentType)]

/-- `web_fetch_tool` on the parameters that it reads.  The state is the connections that were opened;
`get` is what a server answers, and `textOf` the text of a response. -/
def fetch (get : Target → Option Response) (textOf : Response → List Char) (urlStr : List Char)
    (maxChars : Int) : Effect (List Target) Json := do
  if urlStr = [] then throw "url is required"
  let isHttps := urlStr.take 8 = "https://".toList
  let isHttp := urlStr.take 7 = "http://".toList
  if ¬ isHttps ∧ ¬ isHttp then throw "Only http:// and https:// URLs are supported"
  let stripped := if isHttps then urlStr.drop 8 else urlStr.drop 7
  let host := stripped.takeWhile (· ≠ '/')
  let path := if '/' ∈ stripped then stripped.dropWhile (· ≠ '/') else ['/']
  if kBlocked.any fun b => (Text.find b host).isSome then
    throw ("SSRF guard: blocked host " ++ String.ofList host)
  let target : Target := ⟨isHttps, host, path⟩
  modify (· ++ [target])
  match get target with
  | none => throw ("web_fetch: connection to " ++ String.ofList host ++ " failed")
  | some res =>
    if 400 ≤ res.status then throw ("web_fetch HTTP " ++ toString res.status)
    Effect.ofOption "invalid UTF-8" (answer urlStr (textOf res) res.contentType maxChars).dump

def webFetchTool (get : Target → Option Response) (textOf : Response → List Char) (params : Json) :
    Effect (List Target) Json := do
  let urlStr ← Effect.ofOption "type_error" (params.value Json.getString "url" "")
  let maxChars ← Effect.ofOption "type_error" (params.value Json.getInt "maxChars" 50000)
  fetch get textOf urlStr.toList maxChars

/-! ## URLs -/

/-- The host of a URL: `localhost` in any case, an address, or another name, whose last label is no number
and not `localhost`. -/
inductive Host where
  | localhost (spelling : List Char) (h : Text.toLower spelling = "localhost".toList)
  | ipv4 (address : Ipv4)
  | ipv6 (address : Ipv6)
  | name (text : List Char)
      (hchars : ∀ c ∈ text, c.isAlphanum = true ∨ c = '-' ∨ c = '_' ∨ c = '.')
      (hlast : ∀ label ∈ (text.splitOn '.').getLast?, (∃ c ∈ label, c.isDigit = false) ∧
        Text.toLower label ≠ "localhost".toList)

namespace Host

/-- The host as it is written. -/
def text : Host → List Char
  | localhost spelling _ => spelling
  | ipv4 address => address.text
  | ipv6 address => '[' :: (address.text ++ [']'])
  | name text _ _ => text

/-- The host is not to be reached from outside. -/
def IsInternal : Host → Prop
  | localhost _ _ => True
  | ipv4 address => address.IsInternal
  | ipv6 address => address.IsInternal
  | name _ _ _ => False

/-- The host is on the public internet. -/
def IsPublic : Host → Prop
  | localhost _ _ => False
  | ipv4 address => address.IsPublic
  | ipv6 address => address.IsPublic
  | name _ _ _ => True

end Host

def userText : Option (List Char) → List Char
  | some user => user ++ ['@']
  | none => []

def portText : Option (List Char) → List Char
  | some digits => ':' :: digits
  | none => []

/-- A URL with a user, a port and what comes after them. -/
structure Url where
  isHttps : Bool
  userinfo : Option (List Char)
  host : Host
  port : Option (List Char)
  rest : List Char
  userinfo_clean : ∀ user ∈ userinfo, ∀ c ∈ user, c ∉ ['/', '?', '#', '@']
  port_digits : ∀ digits ∈ port, ∀ c ∈ digits, c.isDigit = true
  rest_starts : ∀ c ∈ rest.head?, c ∈ ['/', '?', '#']

namespace Url

def authority (url : Url) : List Char :=
  userText url.userinfo ++ (url.host.text ++ portText url.port)

def text (url : Url) : List Char :=
  (if url.isHttps then "https://".toList else "http://".toList) ++ (url.authority ++ url.rest)

end Url

/-! ## Fragments -/

def Trips (text : List Char) : Prop := ∃ b ∈ kBlocked, b <:+: text

theorem any_find_iff (text : List Char) :
    (kBlocked.any fun b => (Text.find b text).isSome) = true ↔ Trips text := by
  rw [any_eq_true]
  refine exists_congr fun b => and_congr_right fun _ => ⟨fun h => ?_, Text.isSome_find⟩
  obtain ⟨n, hn⟩ := Option.isSome_iff_exists.1 h
  obtain ⟨⟨x, y, rfl, -⟩, -⟩ := Text.find_eq_some_iff.1 hn
  exact ⟨x, y, append_assoc x b y⟩

theorem trips_iff (text : List Char) : Trips text ↔ "localhost".toList <:+: text ∨
    "127.".toList <:+: text ∨ "0.0.0.0".toList <:+: text ∨ "::1".toList <:+: text ∨
      "10.".toList <:+: text ∨ "192.168.".toList <:+: text ∨ "169.254.".toList <:+: text := by
  simp only [Trips, kBlocked, map_cons, map_nil, mem_cons, not_mem_nil, or_false,
    exists_eq_or_imp, exists_eq_left]

theorem trips_cut {c : Char} (hc : ∀ b ∈ kBlocked, c ∉ b) (x y : List Char) :
    Trips (x ++ c :: y) ↔ Trips x ∨ Trips y := by
  rw [Trips, Trips, Trips, ← exists_or]
  refine exists_congr fun b => ?_
  rw [← and_or_left]
  exact and_congr_right fun hb => Occurrence.isInfix_of_notMem_iff (hc b hb)

/-! ## Addresses of version 4 -/

/-- A fragment occurs in the address as it is written. -/
def LooksInternal (a : Ipv4) : Prop :=
  (∃ b ∈ [a.b₁, a.b₂, a.b₃], b ∈ [127, 10, 110, 210]) ∨ (a.b₁ = 192 ∧ a.b₂ = 168) ∨
    (a.b₂ = 192 ∧ a.b₃ = 168) ∨ (a.b₁ = 169 ∧ a.b₂ = 254) ∨ (a.b₂ = 169 ∧ a.b₃ = 254) ∨
      (a.b₁.toNat % 10 = 0 ∧ a.b₂ = 0 ∧ a.b₃ = 0 ∧ a.b₄ = 0)

theorem decimal_ends (b : UInt8) :
    ("127".toList <:+ Ipv4.decimal b ↔ b = 127) ∧ ("0".toList <:+ Ipv4.decimal b ↔ b.toNat % 10 = 0) ∧
      ("10".toList <:+ Ipv4.decimal b ↔ b ∈ [10, 110, 210]) ∧
        ("192".toList <:+ Ipv4.decimal b ↔ b = 192) ∧ ("169".toList <:+ Ipv4.decimal b ↔ b = 169) := by
  have h : ∀ n < 256, ("127".toList <:+ Nat.toDigits 10 n ↔ n = 127) ∧
      ("0".toList <:+ Nat.toDigits 10 n ↔ n % 10 = 0) ∧
        ("10".toList <:+ Nat.toDigits 10 n ↔ n ∈ [10, 110, 210]) ∧
          ("192".toList <:+ Nat.toDigits 10 n ↔ n = 192) ∧
            ("169".toList <:+ Nat.toDigits 10 n ↔ n = 169) := by
    decide +kernel
  have hb := h b.toNat b.toNat_lt
  simpa [Ipv4.decimal, ← UInt8.toNat_inj] using hb

theorem decimal_eq (b : UInt8) :
    ("168".toList = Ipv4.decimal b ↔ b = 168) ∧ ("254".toList = Ipv4.decimal b ↔ b = 254) ∧
      ("0".toList = Ipv4.decimal b ↔ b = 0) ∧ ("0".toList <+: Ipv4.decimal b ↔ b = 0) := by
  have h : ∀ n < 256, ("168".toList = Nat.toDigits 10 n ↔ n = 168) ∧
      ("254".toList = Nat.toDigits 10 n ↔ n = 254) ∧ ("0".toList = Nat.toDigits 10 n ↔ n = 0) ∧
        ("0".toList <+: Nat.toDigits 10 n ↔ n = 0) := by
    decide +kernel
  have hb := h b.toNat b.toNat_lt
  simpa [Ipv4.decimal, ← UInt8.toNat_inj] using hb

theorem dot_notMem_decimal (b : UInt8) : '.' ∉ Ipv4.decimal b := fun h =>
  absurd (Ipv4.isDigit_of_mem_decimal h) (by decide)

theorem isInfix_address_iff {w rest : List Char} (hw : '.' ∉ w) (a : Ipv4) :
    w ++ '.' :: rest <:+: a.text ↔
      (w <:+ Ipv4.decimal a.b₁ ∧
          rest <+: Ipv4.decimal a.b₂ ++ '.' :: (Ipv4.decimal a.b₃ ++ '.' :: Ipv4.decimal a.b₄)) ∨
        (w <:+ Ipv4.decimal a.b₂ ∧ rest <+: Ipv4.decimal a.b₃ ++ '.' :: Ipv4.decimal a.b₄) ∨
          (w <:+ Ipv4.decimal a.b₃ ∧ rest <+: Ipv4.decimal a.b₄) := by
  rw [Ipv4.text, Occurrence.isInfix_cut_iff hw (dot_notMem_decimal _),
    Occurrence.isInfix_cut_iff hw (dot_notMem_decimal _),
    Occurrence.isInfix_cut_iff hw (dot_notMem_decimal _),
    or_iff_left (Occurrence.not_isInfix_cut (dot_notMem_decimal a.b₄))]

theorem isInfix_one_iff {w : List Char} (hw : '.' ∉ w) (a : Ipv4) :
    w ++ ['.'] <:+: a.text ↔ ∃ b ∈ [a.b₁, a.b₂, a.b₃], w <:+ Ipv4.decimal b := by
  rw [isInfix_address_iff hw]
  simp only [ nil_prefix, and_true, mem_cons, not_mem_nil, or_false, exists_eq_or_imp,
    exists_eq_left]

theorem isInfix_two_iff {w v : List Char} (hw : '.' ∉ w) (hv : '.' ∉ v) (a : Ipv4) :
    w ++ '.' :: (v ++ ['.']) <:+: a.text ↔
      (w <:+ Ipv4.decimal a.b₁ ∧ v = Ipv4.decimal a.b₂) ∨
        (w <:+ Ipv4.decimal a.b₂ ∧ v = Ipv4.decimal a.b₃) := by
  have hlast : ¬ v ++ ['.'] <+: Ipv4.decimal a.b₄ := fun h =>
    Occurrence.not_isInfix_cut (dot_notMem_decimal a.b₄) h.isInfix
  rw [isInfix_address_iff hw, Occurrence.isPrefix_cut_iff hv (dot_notMem_decimal _),
    Occurrence.isPrefix_cut_iff hv (dot_notMem_decimal _)]
  simp only [ nil_prefix, and_true, hlast, and_false, or_false]

theorem isInfix_unspecified_iff (a : Ipv4) :
    "0.0.0.0".toList <:+: a.text ↔
      "0".toList <:+ Ipv4.decimal a.b₁ ∧ "0".toList = Ipv4.decimal a.b₂ ∧ "0".toList = Ipv4.decimal a.b₃ ∧
        "0".toList <+: Ipv4.decimal a.b₄ := by
  have hzero : '.' ∉ "0".toList := by decide
  have hsplit : "0.0.0.0".toList = "0".toList ++ '.' :: ("0".toList ++ '.' :: ("0".toList ++ '.' :: "0".toList)) := by
    decide
  have hshort (b : UInt8) (v : List Char) : ¬ "0".toList ++ '.' :: v <+: Ipv4.decimal b := fun h =>
    Occurrence.not_isInfix_cut (dot_notMem_decimal b) h.isInfix
  rw [hsplit, isInfix_address_iff hzero, Occurrence.isPrefix_cut_iff hzero (dot_notMem_decimal _),
    Occurrence.isPrefix_cut_iff hzero (dot_notMem_decimal _),
    Occurrence.isPrefix_cut_iff hzero (dot_notMem_decimal _)]
  simp only [hshort, and_false, or_false]

theorem trips_address_iff (a : Ipv4) : Trips a.text ↔ LooksInternal a := by
  -- digits and dots are the only letters of an address
  have hletters {b : List Char} {c : Char} (hc : c ∈ b) (hnot : c.isDigit = false ∧ c ≠ '.') :
      ¬ b <:+: a.text := by
    intro h
    rcases Ipv4.mem_text (h.subset hc) with hdigit | hdot
    · rw [hdigit] at hnot
      cases hnot.1
    · exact hnot.2 hdot
  have hlocalhost : ¬ "localhost".toList <:+: a.text := hletters (c := 'l') (by decide) (by decide)
  have hloopback : ¬ "::1".toList <:+: a.text := hletters (c := ':') (by decide) (by decide)
  have h127 : "127.".toList <:+: a.text ↔ ∃ b ∈ [a.b₁, a.b₂, a.b₃], b = 127 := by
    rw [show "127.".toList = "127".toList ++ ['.'] by decide, isInfix_one_iff (by decide)]
    simp only [(decimal_ends _).1]
  have h10 : "10.".toList <:+: a.text ↔ ∃ b ∈ [a.b₁, a.b₂, a.b₃], b ∈ [10, 110, 210] := by
    rw [show "10.".toList = "10".toList ++ ['.'] by decide, isInfix_one_iff (by decide)]
    simp only [(decimal_ends _).2.2.1]
  have h192 : "192.168.".toList <:+: a.text ↔ (a.b₁ = 192 ∧ a.b₂ = 168) ∨ (a.b₂ = 192 ∧ a.b₃ = 168) := by
    rw [show "192.168.".toList = "192".toList ++ '.' :: ("168".toList ++ ['.']) by decide,
      isInfix_two_iff (by decide) (by decide)]
    simp only [(decimal_ends _).2.2.2.1, (decimal_eq _).1]
  have h169 : "169.254.".toList <:+: a.text ↔ (a.b₁ = 169 ∧ a.b₂ = 254) ∨ (a.b₂ = 169 ∧ a.b₃ = 254) := by
    rw [show "169.254.".toList = "169".toList ++ '.' :: ("254".toList ++ ['.']) by decide,
      isInfix_two_iff (by decide) (by decide)]
    simp only [(decimal_ends _).2.2.2.2, (decimal_eq _).2.1]
  have hone : (∃ b ∈ [a.b₁, a.b₂, a.b₃], b ∈ [127, 10, 110, 210]) ↔
      (∃ b ∈ [a.b₁, a.b₂, a.b₃], b = 127) ∨ ∃ b ∈ [a.b₁, a.b₂, a.b₃], b ∈ [10, 110, 210] := by
    rw [← exists_or]
    refine exists_congr fun b => ?_
    rw [← and_or_left]
    exact and_congr_right fun _ => mem_cons
  rw [trips_iff, isInfix_unspecified_iff, h127, h10, h192, h169, (decimal_ends _).2.1, (decimal_eq _).2.2.1,
    (decimal_eq _).2.2.1, (decimal_eq _).2.2.2, LooksInternal, hone, or_iff_right hlocalhost,
    or_iff_right hloopback]
  generalize (∃ b ∈ [a.b₁, a.b₂, a.b₃], b = 127) = loopback
  generalize (∃ b ∈ [a.b₁, a.b₂, a.b₃], b ∈ [10, 110, 210]) = ten
  generalize (a.b₁.toNat % 10 = 0 ∧ a.b₂ = 0 ∧ a.b₃ = 0 ∧ a.b₄ = 0) = unspecified
  constructor
  · rintro (h | h | h | (h | h) | h | h)
    exacts [.inl (.inl h), .inr (.inr (.inr (.inr (.inr h)))), .inl (.inr h), .inr (.inl h),
      .inr (.inr (.inl h)), .inr (.inr (.inr (.inl h))), .inr (.inr (.inr (.inr (.inl h))))]
  · rintro ((h | h) | h | h | h | h | h)
    exacts [.inl h, .inr (.inr (.inl h)), .inr (.inr (.inr (.inl (.inl h)))),
      .inr (.inr (.inr (.inl (.inr h)))), .inr (.inr (.inr (.inr (.inl h)))),
      .inr (.inr (.inr (.inr (.inr h)))), .inr (.inl h)]

/-! ## Hosts -/

theorem trips_of_plain {text : List Char} (hdot : '.' ∉ text) (hcolon : ':' ∉ text) :
    Trips text ↔ "localhost".toList <:+: text := by
  have hno {b : List Char} {c : Char} (hc : c ∈ b) (hnot : c ∉ text) : ¬ b <:+: text := fun h =>
    hnot (h.subset hc)
  rw [trips_iff, or_iff_left]
  rintro (h | h | h | h | h | h)
  · exact hno (c := '.') (by decide) hdot h
  · exact hno (c := '.') (by decide) hdot h
  · exact hno (c := ':') (by decide) hcolon h
  · exact hno (c := '.') (by decide) hdot h
  · exact hno (c := '.') (by decide) hdot h
  · exact hno (c := '.') (by decide) hdot h

theorem not_trips_nil : ¬ Trips [] := by
  rw [trips_of_plain not_mem_nil not_mem_nil, infix_nil]
  decide

theorem trips_localhost_iff {spelling : List Char} (h : Text.toLower spelling = "localhost".toList) :
    Trips spelling ↔ spelling = "localhost".toList := by
  have hno {c : Char} (hc : Text.lowerChar c ∉ "localhost".toList) : c ∉ spelling := fun hmem =>
    hc (h ▸ mem_map_of_mem hmem)
  rw [trips_of_plain (hno (by decide)) (hno (by decide))]
  constructor
  · intro hinfix
    refine ( hinfix.eq_of_length ?_).symm
    rw [← h, Text.length_toLower]
  · rintro rfl
    exact infix_refl _

theorem trips_ipv6_iff (a : Ipv6) :
    Trips a.text ↔ a.StartsAfterGap '1' ∨ ∃ v ∈ a.tail, LooksInternal v := by
  -- a fragment with a dot can only be in the part that is written as an address of version 4
  have htail {b : List Char} (hdot : '.' ∈ b) (hcolon : ':' ∉ b) :
      b <:+: a.text ↔ ∃ v ∈ a.tail, b <:+: v.text := by
    rw [Ipv6.isInfix_text_iff (ne_nil_of_mem hdot) hcolon]
    constructor
    · rintro ⟨piece, hpiece, hinfix⟩
      rcases Ipv6.mem_allPieces hpiece with ⟨g, rfl⟩ | ⟨v, hv, rfl⟩
      · rcases g.isHex '.' ( hinfix.subset hdot) with hdigit | hletter
        · exact absurd hdigit (by decide)
        · exact absurd hletter (by decide)
      · exact ⟨v, hv, hinfix⟩
    · rintro ⟨v, hv, hinfix⟩
      exact ⟨v.text, Ipv6.text_mem_allPieces hv, hinfix⟩
  have hname : ¬ "localhost".toList <:+: a.text := by
    rw [Ipv6.isInfix_text_iff (by decide) (by decide)]
    rintro ⟨piece, hpiece, hinfix⟩
    have hl : 'l' ∈ piece := hinfix.subset (by decide)
    rcases Ipv6.mem_allPieces hpiece with ⟨g, rfl⟩ | ⟨v, -, rfl⟩
    · rcases g.isHex 'l' hl with hdigit | hletter
      · exact absurd hdigit (by decide)
      · exact absurd hletter (by decide)
    · rcases Ipv4.mem_text hl with hdigit | hdot
      · exact absurd hdigit (by decide)
      · exact absurd hdot (by decide)
  have hgap : "::1".toList <:+: a.text ↔ a.StartsAfterGap '1' := Ipv6.isInfix_gap_iff a
  constructor
  · rintro ⟨b, hb, hinfix⟩
    by_cases hdot : '.' ∈ b
    · have hcolon : ∀ b ∈ kBlocked, '.' ∈ b → ':' ∉ b := by decide
      obtain ⟨v, hv, hinfix⟩ := (htail hdot (hcolon b hb hdot)).1 hinfix
      exact .inr ⟨v, hv, (trips_address_iff v).1 ⟨b, hb, hinfix⟩⟩
    · have hother : ∀ b ∈ kBlocked, '.' ∉ b → b = "localhost".toList ∨ b = "::1".toList := by decide
      rcases hother b hb hdot with rfl | rfl
      · exact absurd hinfix hname
      · exact .inl (hgap.1 hinfix)
  · rintro (hstart | ⟨v, hv, hlooks⟩)
    · exact ⟨_, by decide, hgap.2 hstart⟩
    · obtain ⟨b, hb, hinfix⟩ := (trips_address_iff v).2 hlooks
      have hcolon : ':' ∉ b := fun hmem => by
        rcases Ipv4.mem_text ( hinfix.subset hmem) with hdigit | hdot
        · exact absurd hdigit (by decide)
        · exact absurd hdot (by decide)
      have hne : ∀ b ∈ kBlocked, b ≠ [] := by decide
      exact ⟨b, hb, (Ipv6.isInfix_text_iff (hne b hb) hcolon a).2 ⟨v.text, Ipv6.text_mem_allPieces hv, hinfix⟩⟩

theorem trips_port_iff {x digits : List Char} (hx : ':' ∉ x) (hdigits : ∀ c ∈ digits, c.isDigit = true) :
    Trips (x ++ ':' :: digits) ↔ Trips x := by
  refine exists_congr fun b => and_congr_right fun hb => ?_
  have hno {b : List Char} {c : Char} (hc : c ∈ b) (hnot : c.isDigit = false) : ¬ b <:+: digits := fun h => by
    rw [hdigits c (h.subset hc)] at hnot
    cases hnot
  by_cases hcolon : ':' ∈ b
  · have hb' : ∀ b ∈ kBlocked, ':' ∈ b → b = "::1".toList := by decide
    obtain rfl := hb' b hb hcolon
    refine iff_of_false (fun h => ?_) fun h => hx (h.subset hcolon)
    rcases (Ipv6.isInfix_colons_cut hx).1 h with hpre | hinfix
    · exact absurd (hdigits ':' (hpre.subset mem_cons_self)) (by decide)
    · exact absurd (hdigits ':' ( hinfix.subset mem_cons_self)) (by decide)
  · rw [Occurrence.isInfix_of_notMem_iff hcolon]
    refine or_iff_left ?_
    have hletter : ∀ b ∈ kBlocked, b.any (!·.isDigit) = true := by decide
    obtain ⟨c, hc, hnot⟩ := any_eq_true.1 (hletter b hb)
    exact hno hc (by simpa using hnot)

/-- A fragment occurs in a host: a spelling of `localhost` that is the plain one, an address of version 4 by
its bytes, one of version 6 by what follows the groups that are left out or by its last part, or another
name. -/
def Host.LooksInternal : Host → Prop
  | .localhost spelling _ => spelling = "localhost".toList
  | .ipv4 a => WebFetch.LooksInternal a
  | .ipv6 a => a.StartsAfterGap '1' ∨ ∃ v ∈ a.tail, WebFetch.LooksInternal v
  | .name text _ _ => Trips text

theorem trips_host_iff (host : Host) {port : Option (List Char)}
    (hport : ∀ digits ∈ port, ∀ c ∈ digits, c.isDigit = true) :
    Trips (host.text ++ portText port) ↔ host.LooksInternal := by
  have hplain {x : List Char} (hx : ':' ∉ x) : Trips (x ++ portText port) ↔ Trips x := by
    cases port with
    | none => rw [portText, append_nil]
    | some digits => exact trips_port_iff hx (hport digits rfl)
  cases host with
  | localhost spelling h =>
    have hcolon : ':' ∉ spelling := fun hmem => by
      have hlower : Text.lowerChar ':' ∈ Text.toLower spelling := mem_map_of_mem hmem
      rw [h] at hlower
      exact absurd hlower (by decide)
    exact (hplain hcolon).trans (trips_localhost_iff h)
  | ipv4 a =>
    refine (hplain fun hmem => ?_).trans (trips_address_iff a)
    rcases Ipv4.mem_text hmem with hdigit | hdot
    · exact absurd hdigit (by decide)
    · exact absurd hdot (by decide)
  | ipv6 a =>
    have hopen : ∀ b ∈ kBlocked, '[' ∉ b := by decide
    have hclose : ∀ b ∈ kBlocked, ']' ∉ b := by decide
    have hbrackets : Host.text (.ipv6 a) ++ portText port = [] ++ '[' :: (a.text ++ ']' :: ([] ++ portText port)) := by
      simp [Host.text]
    rw [hbrackets, trips_cut hopen, trips_cut hclose, hplain not_mem_nil, or_iff_right not_trips_nil,
      or_iff_left not_trips_nil]
    exact trips_ipv6_iff a
  | name text hchars hlast =>
    refine hplain fun hmem => ?_
    rcases hchars ':' hmem with h | h | h | h <;> exact absurd h (by decide)

namespace Url

/-- A fragment occurs around the host: in the user, or in a query before the first slash. -/
def Surrounds (url : Url) : Prop :=
  (∃ user ∈ url.userinfo, Trips user) ∨ Trips (url.rest.takeWhile (· ≠ '/'))

theorem trips_authority_iff (url : Url) :
    Trips (url.authority ++ url.rest.takeWhile (· ≠ '/')) ↔ url.host.LooksInternal ∨ url.Surrounds := by
  have hcut {c : Char} (hc : c ∈ ['?', '#']) : ∀ b ∈ kBlocked, c ∉ b := by
    rcases mem_cons.1 hc with rfl | hc
    · decide
    · obtain rfl := mem_singleton.1 hc
      decide
  have hrest (x : List Char) : Trips (x ++ url.rest.takeWhile (· ≠ '/')) ↔
      Trips x ∨ Trips (url.rest.takeWhile (· ≠ '/')) := by
    cases hrest : url.rest with
    | nil => rw [takeWhile_nil, append_nil, or_iff_left not_trips_nil]
    | cons c rest =>
      have hc := url.rest_starts c (by rw [hrest]; rfl)
      by_cases hslash : c = '/'
      · rw [takeWhile_cons_of_neg (by simpa using hslash), append_nil, or_iff_left not_trips_nil]
      · have hc' : c ∈ ['?', '#'] := (mem_cons.1 hc).resolve_left hslash
        have hself (y : List Char) : Trips (c :: y) ↔ Trips y := by
          rw [← nil_append (c :: y), trips_cut (hcut hc'), or_iff_right not_trips_nil]
        rw [takeWhile_cons_of_pos (by simpa using hslash), trips_cut (hcut hc'), hself]
  have hat : ∀ b ∈ kBlocked, '@' ∉ b := by decide
  have hhost := trips_host_iff url.host url.port_digits
  rw [hrest, Surrounds, authority]
  cases huser : url.userinfo with
  | none =>
    rw [userText, nil_append, hhost]
    simp
  | some user =>
    rw [userText, append_assoc, singleton_append, trips_cut hat, hhost]
    simp only [Option.mem_some_iff, exists_eq_left']
    rw [or_comm (a := Trips user), or_assoc]

theorem slash_notMem_authority (url : Url) : '/' ∉ url.authority := by
  have hdigit {c : Char} (hc : c.isDigit = true) : c ≠ '/' := by
    rintro rfl
    cases hc
  have haddress (a : Ipv4) : '/' ∉ a.text := fun hmem => by
    rcases Ipv4.mem_text hmem with h | h
    · exact hdigit h rfl
    · cases h
  rw [authority, mem_append, mem_append]
  rintro (huser | hhost | hport)
  · cases hu : url.userinfo with
    | none =>
      rw [hu] at huser
      cases huser
    | some user =>
      rw [hu] at huser
      rcases mem_append.1 huser with hmem | hmem
      · exact url.userinfo_clean user hu '/' hmem (by decide)
      · cases mem_singleton.1 hmem
  · cases hh : url.host with
    | localhost spelling h =>
      rw [hh] at hhost
      have hlower : Text.lowerChar '/' ∈ Text.toLower spelling := mem_map_of_mem hhost
      rw [h] at hlower
      exact absurd hlower (by decide)
    | ipv4 a =>
      rw [hh] at hhost
      exact haddress a hhost
    | ipv6 a =>
      rw [hh] at hhost
      rcases mem_cons.1 hhost with h | hmem
      · cases h
      · rcases mem_append.1 hmem with hmem | hmem
        · rw [← singleton_infix_iff, Ipv6.isInfix_text_iff (cons_ne_nil _ _) (by decide)] at hmem
          obtain ⟨piece, hpiece, hinfix⟩ := hmem
          rcases Ipv6.mem_allPieces hpiece with ⟨g, rfl⟩ | ⟨v, -, rfl⟩
          · rcases g.isHex '/' ( hinfix.subset mem_cons_self) with h | h
            · exact hdigit h rfl
            · exact absurd h (by decide)
          · exact haddress v ( hinfix.subset mem_cons_self)
        · cases mem_singleton.1 hmem
    | name text hchars hlast =>
      rw [hh] at hhost
      rcases hchars '/' hhost with h | h | h | h <;> exact absurd h (by decide)
  · cases hp : url.port with
    | none =>
      rw [hp] at hport
      cases hport
    | some digits =>
      rw [hp] at hport
      rcases mem_cons.1 hport with h | h
      · cases h
      · exact hdigit (url.port_digits digits hp '/' h) rfl

end Url

/-! ## The tool -/

theorem stripped_eq (isHttps : Bool) (t : List Char) :
    let urlStr := (if isHttps then "https://".toList else "http://".toList) ++ t
    urlStr ≠ [] ∧ (urlStr.take 8 = "https://".toList ↔ isHttps = true) ∧
      (isHttps = false → urlStr.take 7 = "http://".toList) ∧
        (if urlStr.take 8 = "https://".toList then urlStr.drop 8 else urlStr.drop 7) = t := by
  cases isHttps with
  | true =>
    refine ⟨cons_ne_nil _ _, iff_of_true rfl rfl, by rintro ⟨⟩, ?_⟩
    exact if_pos rfl
  | false =>
    have hne : ¬ ("http://".toList ++ t).take 8 = "https://".toList := by
      intro h
      have hfifth := congrArg (·[4]?) h
      cases hfifth
    exact ⟨cons_ne_nil _ _, iff_of_false hne Bool.false_ne_true, fun _ => rfl, if_neg hne⟩

theorem outcome_open {k : Unit → Effect (List Target) Json}
    (hk : ∀ u, Effect.Preserves (· ≠ []) (k u)) (target : Target) :
    ((modify (· ++ [target]) >>= k).outcome []).2 ≠ [] := by
  rw [Effect.outcome_bind]
  exact hk () [target] (cons_ne_nil _ _)

/-- When a fragment occurs in what the tool takes for the host, it throws and opens no connection; else it
opens one. -/
theorem outcome_fetch (get : Target → Option Response) (textOf : Response → List Char) (isHttps : Bool)
    (t : List Char) (maxChars : Int) :
    let urlStr := (if isHttps then "https://".toList else "http://".toList) ++ t
    (Trips (t.takeWhile (· ≠ '/')) → ∃ e, (fetch get textOf urlStr maxChars).outcome [] = (.error e, [])) ∧
      (¬ Trips (t.takeWhile (· ≠ '/')) → ((fetch get textOf urlStr maxChars).outcome []).2 ≠ []) := by
  obtain ⟨hne, hhttps, hhttp, hstripped⟩ := stripped_eq isHttps t
  intro urlStr
  have hscheme : ¬ (¬ urlStr.take 8 = "https://".toList ∧ ¬ urlStr.take 7 = "http://".toList) := by
    rintro ⟨h, h'⟩
    cases isHttps with
    | true => exact h (hhttps.2 rfl)
    | false => exact h' (hhttp rfl)
  simp only [fetch, if_neg hne, if_neg hscheme, urlStr, hstripped]
  constructor
  · intro htrips
    rw [if_pos ((any_find_iff _).2 htrips)]
    exact ⟨_, rfl⟩
  · intro htrips
    rw [if_neg fun h => htrips ((any_find_iff _).1 h)]
    refine outcome_open (fun _ => ?_) _
    split
    · exact Effect.Preserves.throw _
    · split
      · exact Effect.Preserves.bind (Effect.Preserves.throw _) fun _ => Effect.Preserves.ofOption _ _
      · exact Effect.Preserves.ofOption _ _

/-- What a guard has to do with a URL: for an internal host it throws before a connection is opened, and for
a public one it lets the connection be opened. -/
def Guards (get : Target → Option Response) (textOf : Response → List Char) (params : Json) (host : Host) :
    Prop :=
  (host.IsInternal → ∃ e, (webFetchTool get textOf params).outcome [] = (.error e, [])) ∧
    (host.IsPublic → ((webFetchTool get textOf params).outcome []).2 ≠ [])

/-- The tool opens a connection exactly when no fragment occurs in the host, the user or a query that comes
before the first slash. -/
theorem outcome_webFetchTool (get : Target → Option Response) (textOf : Response → List Char) {params : Json}
    {url : Url} {maxChars : Int}
    (hurl : params.value Json.getString "url" "" = some (String.ofList url.text))
    (hmax : params.value Json.getInt "maxChars" 50000 = some maxChars) :
    (url.host.LooksInternal ∨ url.Surrounds →
        ∃ e, (webFetchTool get textOf params).outcome [] = (.error e, [])) ∧
      (¬ (url.host.LooksInternal ∨ url.Surrounds) →
        ((webFetchTool get textOf params).outcome []).2 ≠ []) := by
  have hhost : (url.authority ++ url.rest).takeWhile (· ≠ '/') =
      url.authority ++ url.rest.takeWhile (· ≠ '/') := by
    refine takeWhile_append_of_pos fun c hc => ?_
    rw [decide_eq_true_eq]
    rintro rfl
    exact url.slash_notMem_authority hc
  have hfetch : webFetchTool get textOf params = fetch get textOf url.text maxChars := by
    rw [webFetchTool, hurl, hmax]
    show (pure (String.ofList url.text) >>= fun urlStr => pure maxChars >>= fun maxChars =>
      fetch get textOf urlStr.toList maxChars) = _
    rw [pure_bind, pure_bind, String.toList_ofList]
  have houtcome := outcome_fetch get textOf url.isHttps (url.authority ++ url.rest) maxChars
  rw [hfetch, ← url.trips_authority_iff, ← hhost]
  exact houtcome

theorem looksInternal_of_172 {a : Ipv4} (h : a.InBlock ⟨172, 16, 0, 0⟩ 12) :
    LooksInternal a ↔ a.b₃ ∈ [127, 10, 110, 210] := by
  obtain ⟨h₁, h₂⟩ := (a.inBlock_12 _).1 h
  have hfirst : a.b₁ ∉ [127, 10, 110, 210] := by
    rw [h₁]
    decide
  -- the second byte is between 16 and 31
  have hsecond {b : UInt8} (hb : b.toNat / 16 ≠ 1) : a.b₂ ≠ b := fun heq => hb (heq ▸ h₂)
  have hlist : a.b₂ ∉ [127, 10, 110, 210] := by
    simp only [mem_cons, not_mem_nil, or_false, not_or]
    exact ⟨hsecond (by decide), hsecond (by decide), hsecond (by decide), hsecond (by decide)⟩
  have h192 : a.b₁ ≠ 192 := by
    rw [h₁]
    decide
  have h169 : a.b₁ ≠ 169 := by
    rw [h₁]
    decide
  have hzero : a.b₁.toNat % 10 ≠ 0 := by
    rw [h₁]
    decide
  have h192' : a.b₂ ≠ 192 := hsecond (by decide)
  have h169' : a.b₂ ≠ 169 := hsecond (by decide)
  simp only [LooksInternal, h192, h169, h192', h169', hzero, false_and, or_false]
  rw [exists_mem_cons_iff, exists_mem_cons_iff, or_iff_right hfirst, or_iff_right hlist]
  refine ⟨?_, fun hmem => ⟨_, mem_singleton_self _, hmem⟩⟩
  rintro ⟨b, hb, hmem⟩
  exact mem_singleton.1 hb ▸ hmem

theorem looksInternal_of_isInternal {a : Ipv4} (h : a.IsInternal) (hnot : ¬ a.InBlock ⟨172, 16, 0, 0⟩ 12) :
    LooksInternal a := by
  rw [a.inBlock_12] at hnot
  rw [LooksInternal]
  rcases a.isInternal_iff.1 h with h | (h | h | h) | h | ⟨h₁, hzero⟩
  · exact .inl ⟨a.b₁, mem_cons_self, by rw [h]; decide⟩
  · exact .inl ⟨a.b₁, mem_cons_self, by rw [h]; decide⟩
  · exact absurd h hnot
  · exact .inr (.inl h)
  · exact .inr (.inr (.inr (.inl h)))
  · refine .inr (.inr (.inr (.inr (.inr ⟨?_, hzero⟩))))
    rw [h₁]
    rfl

/-- The URLs that are treated as they should be: `localhost` in small letters; an internal address of
version 4 that is not between 172.16.0.0 and 172.31.255.255, or whose third byte is 10, 110, 127 or 210; an
internal address of version 6 with a text that has a `1` behind the groups that are left out, or a part that
is written as such an address of version 4; an internal host with a fragment around it; and a public host
without fragments in it or around it. -/
def Url.Covered (url : Url) : Prop :=
  match url.host with
  | .localhost spelling _ => spelling = "localhost".toList ∨ url.Surrounds
  | .ipv4 a =>
    (a.InBlock ⟨172, 16, 0, 0⟩ 12 → a.b₃ ∈ [127, 10, 110, 210] ∨ url.Surrounds) ∧
      (a.IsPublic → ¬ LooksInternal a ∧ ¬ url.Surrounds)
  | .ipv6 a =>
    (a.IsInternal → (a.StartsAfterGap '1' ∨ ∃ v ∈ a.tail, LooksInternal v) ∨ url.Surrounds) ∧
      (a.IsPublic → ¬ (a.StartsAfterGap '1' ∨ ∃ v ∈ a.tail, LooksInternal v) ∧ ¬ url.Surrounds)
  | .name text _ _ => ¬ Trips text ∧ ¬ url.Surrounds

/-- `web_fetch_tool` guards a URL exactly when it is one of those. -/
theorem guards_iff (get : Target → Option Response) (textOf : Response → List Char) {params : Json}
    {url : Url} {maxChars : Int}
    (hurl : params.value Json.getString "url" "" = some (String.ofList url.text))
    (hmax : params.value Json.getInt "maxChars" 50000 = some maxChars) :
    Guards get textOf params url.host ↔ url.Covered := by
  obtain ⟨hthrows, hopens⟩ := outcome_webFetchTool get textOf hurl hmax
  have hguards : Guards get textOf params url.host ↔
      (url.host.IsInternal → url.host.LooksInternal ∨ url.Surrounds) ∧
        (url.host.IsPublic → ¬ (url.host.LooksInternal ∨ url.Surrounds)) := by
    refine and_congr (imp_congr_right fun _ => ⟨?_, hthrows⟩) (imp_congr_right fun _ => ⟨?_, hopens⟩)
    · rintro ⟨e, he⟩
      by_contra hnot
      exact hopens hnot (by rw [he])
    · intro hne hlooks
      obtain ⟨e, he⟩ := hthrows hlooks
      exact hne (by rw [he])
  rw [hguards, Url.Covered]
  cases url.host with
  | localhost spelling h =>
    simp only [Host.IsInternal, Host.IsPublic, Host.LooksInternal, true_imp_iff, false_imp_iff, and_true]
  | ipv4 a =>
    simp only [Host.IsInternal, Host.IsPublic, Host.LooksInternal, not_or]
    refine and_congr_left fun _ => ⟨fun h hblock => ?_, fun h hinternal => ?_⟩
    · rw [← looksInternal_of_172 hblock]
      exact h (.inr (.inl (.inr (.inl hblock))))
    · by_cases hblock : a.InBlock ⟨172, 16, 0, 0⟩ 12
      · rw [looksInternal_of_172 hblock]
        exact h hblock
      · exact .inl (looksInternal_of_isInternal hinternal hblock)
  | ipv6 a => simp only [Host.IsInternal, Host.IsPublic, Host.LooksInternal, not_or]
  | name text hchars hlast =>
    simp only [Host.IsInternal, Host.IsPublic, Host.LooksInternal, true_imp_iff, false_imp_iff, true_and,
      not_or]

/-- The URL `http://10.0.0.5:8080/admin`. -/
def privateUrl : Url where
  isHttps := false
  userinfo := none
  host := .ipv4 ⟨10, 0, 0, 5⟩
  port := some "8080".toList
  rest := "/admin".toList
  userinfo_clean := by rintro _ ⟨⟩
  port_digits := by
    rintro _ ⟨⟩
    exact Text.forall_of_all (by decide)
  rest_starts := by
    rintro _ ⟨⟩
    decide

/-- A request for that URL is guarded. -/
theorem guards_privateUrl : Guards (fun _ => none) (fun _ => [])
    (.object [("url", .str "http://10.0.0.5:8080/admin")]) privateUrl.host := by
  refine (@guards_iff _ _ _ privateUrl 50000 ?_ ?_).2 ⟨fun h => ?_, fun h => ?_⟩
  · rw [Json.value_object]
    show some "http://10.0.0.5:8080/admin" = _
    decide +kernel
  · rfl
  · exact absurd h (by decide)
  · exact absurd (Ipv4.isInternal_iff _ |>.2 (.inr (.inl (.inl rfl)))) h.1

/-- The URL `http://172.16.0.1/`. -/
def missedUrl : Url where
  isHttps := false
  userinfo := none
  host := .ipv4 ⟨172, 16, 0, 1⟩
  port := none
  rest := ['/']
  userinfo_clean := by rintro _ ⟨⟩
  port_digits := by rintro _ ⟨⟩
  rest_starts := by
    rintro _ ⟨⟩
    decide

/-- A connection to a private address is opened. -/
theorem not_guards_missedUrl : ¬ ∀ (get : Target → Option Response) (textOf : Response → List Char) (params : Json)
    (url : Url) (maxChars : Int), params.value Json.getString "url" "" = some (String.ofList url.text) →
      params.value Json.getInt "maxChars" 50000 = some maxChars → Guards get textOf params url.host := by
  intro h
  have hblock : Ipv4.InBlock ⟨172, 16, 0, 1⟩ ⟨172, 16, 0, 0⟩ 12 := by decide
  have hurl : (Json.object [("url", .str "http://172.16.0.1/")]).value Json.getString "url" "" =
      some (String.ofList missedUrl.text) := by
    rw [Json.value_object]
    show some "http://172.16.0.1/" = _
    decide +kernel
  have hguards := h (fun _ => none) (fun _ => []) _ missedUrl 50000 hurl rfl
  obtain ⟨e, he⟩ := hguards.1 (.inr (.inl (.inr (.inl hblock))))
  have hplain : ¬ (missedUrl.host.LooksInternal ∨ missedUrl.Surrounds) := by
    rintro (hlooks | ⟨user, ⟨⟩, -⟩ | hrest)
    · exact absurd ((looksInternal_of_172 hblock).1 hlooks) (by decide)
    · exact not_trips_nil hrest
  exact (outcome_webFetchTool (fun _ => none) (fun _ => []) hurl rfl).2 hplain (by rw [he])

end WebFetch

end RavBot.Tools
