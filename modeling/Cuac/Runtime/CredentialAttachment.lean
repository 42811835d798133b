import Cuac.Runtime.Authenticators
import Cuac.Runtime.GraphqlBodyAgreement
import Cuac.Runtime.RequestAgreement
import Mathlib.Algebra.Order.BigOperators.Group.List
import Mathlib.Algebra.Order.Group.Nat

/-!
# Runtime — one credential on an admitted request

An authenticator adds one element to a request. `CredentialElement.Attached` says what a
server then finds: one more header whose name no other header has in any case, or one
more field of the query whose name no other field has and which reads back to the
credential. Each authenticator grants this for the requests that the builder of its
profile makes, and for those only.

Main results: `AdmittedRequest.ofMaterialized`, `credentials_attached_once`.
-/

namespace Cuac.Runtime.Authentication

open Cuac.Lib Cuac.Connector Cuac.Semantics Cuac.Runtime

-- ---------------------------------------------------------------------------
-- The bytes of the headers
-- ---------------------------------------------------------------------------

/-- The bytes that a header takes, four of them for its framing. -/
def fieldBytes (header : HttpHeader) : Nat :=
  header.name.length + 4 + header.value.length

/-- What the headers of a request take together. -/
def headerListBytes (headers : List HttpHeader) : Nat :=
  (headers.map fieldBytes).sum

/-- A header is added to the sum where it fits the limit. -/
theorem tryAccumulateRequestHeaderBytes_eq_some {limit nameBytes valueBytes total sum : Nat} :
    tryAccumulateRequestHeaderBytes limit nameBytes valueBytes total = some sum ↔
      total + (nameBytes + 4 + valueBytes) ≤ limit ∧ sum = total + (nameBytes + 4 + valueBytes) := by
  unfold tryAccumulateRequestHeaderBytes
  simp only [Bool.or_eq_true, decide_eq_true_eq]
  split
  · simp only [reduceCtorEq, false_iff]
    omega
  · split
    · simp only [reduceCtorEq, false_iff]
      omega
    · split
      · simp only [reduceCtorEq, false_iff]
        omega
      · split
        · simp only [reduceCtorEq, false_iff]
          omega
        · simp only [Option.some.injEq]
          omega

/-- All headers are added up where they fit the limit together. -/
theorem accumulateHeaders_eq_some {limit : Nat} {headers : List HttpHeader} {total sum : Nat}
    (htotal : total ≤ limit) :
    accumulateHeaders limit headers total = some sum ↔
      total + headerListBytes headers ≤ limit ∧ sum = total + headerListBytes headers := by
  induction headers generalizing total with
  | nil =>
    simp only [accumulateHeaders, headerListBytes, List.map_nil, List.sum_nil, Option.some.injEq]
    omega
  | cons header rest ih =>
    have hbytes : headerListBytes (header :: rest) = fieldBytes header + headerListBytes rest := by
      simp [headerListBytes]
    have hfield : fieldBytes header = header.name.length + 4 + header.value.length := rfl
    rw [accumulateHeaders, Option.bind_eq_bind, Option.bind_eq_some_iff, hbytes]
    simp only [tryAccumulateRequestHeaderBytes_eq_some]
    constructor
    · rintro ⟨next, ⟨hle, rfl⟩, hrest⟩
      have htail := (ih hle).mp hrest
      omega
    · rintro ⟨hle, rfl⟩
      exact ⟨_, ⟨by omega, rfl⟩, (ih (by omega)).mpr ⟨by omega, by omega⟩⟩

/-- The bytes that the content type takes, if there is one. -/
def contentTypeBytes (contentType : Bytes) : Nat :=
  if contentType.isEmpty then 0 else fieldBytes ⟨ascii "Content-Type", contentType⟩

/-- A content type counts as a header when there is one. -/
theorem accumulateContentType_eq_some {limit : Nat} {contentType : Bytes} {total sum : Nat}
    (htotal : total ≤ limit) :
    accumulateContentType limit contentType total = some sum ↔
      total + contentTypeBytes contentType ≤ limit ∧ sum = total + contentTypeBytes contentType := by
  unfold accumulateContentType contentTypeBytes
  split
  · rw [Option.some.injEq]
    omega
  · exact tryAccumulateRequestHeaderBytes_eq_some

/-- The header bytes of a request, its content type included. -/
def headerTotal (request : HttpRequest) : Nat :=
  headerListBytes request.headers + contentTypeBytes request.contentType

/-- A request with one more header fits exactly when the sum does. -/
theorem headerBytesWith_isSome {limit : Nat} {request : HttpRequest} {nameBytes valueBytes : Nat} :
    (headerBytesWith limit request nameBytes valueBytes).isSome = true ↔
      headerTotal request + (nameBytes + 4 + valueBytes) ≤ limit := by
  rw [Option.isSome_iff_exists, headerTotal]
  simp only [headerBytesWith, Option.bind_eq_bind, Option.bind_eq_some_iff,
    accumulateHeaders_eq_some (Nat.zero_le limit)]
  constructor
  · rintro ⟨sum, headers, ⟨hheaders, rfl⟩, total, htotal, hsum⟩
    obtain ⟨-, rfl⟩ := (accumulateContentType_eq_some hheaders).mp htotal
    have hle := (tryAccumulateRequestHeaderBytes_eq_some.mp hsum).1
    omega
  · intro hle
    have hheaders : 0 + headerListBytes request.headers ≤ limit := by omega
    exact ⟨_, _, ⟨hheaders, rfl⟩, _,
      (accumulateContentType_eq_some hheaders).mpr ⟨by omega, rfl⟩,
      tryAccumulateRequestHeaderBytes_eq_some.mpr ⟨by omega, rfl⟩⟩

-- ---------------------------------------------------------------------------
-- The fields of a target
-- ---------------------------------------------------------------------------

/-- A field is read at its first equals sign. -/
def readField (field : Bytes) : Bytes × Bytes :=
  (field.takeWhile (· != byte '='), (field.dropWhile (· != byte '=')).tail)

/-- The fields of the query, as a server splits them. -/
def queryFields (target : Bytes) : List (Bytes × Bytes) :=
  match target.dropWhile (· != byte '?') with
  | [] => []
  | _ :: query => (query.splitOn (byte '&')).map readField

/-- A text is cut at its first stop. -/
theorem takeWhile_append_cons {stop : UInt8} {before : Bytes} (h : stop ∉ before) (after : Bytes) :
    (before ++ stop :: after).takeWhile (· != stop) = before ∧
      (before ++ stop :: after).dropWhile (· != stop) = stop :: after := by
  have hall : ∀ b ∈ before, (b != stop) = true := by
    intro b hb
    rw [bne_iff_ne]
    rintro rfl
    exact h hb
  constructor
  · rw [List.takeWhile_append_of_pos hall]
    simp
  · rw [List.dropWhile_append_of_pos hall]
    simp

/-- A field is read back as the name and value it was written from. -/
theorem readField_append {name value : Bytes} (h : byte '=' ∉ name) :
    readField (name ++ byte '=' :: value) = (name, value) := by
  obtain ⟨htake, hdrop⟩ := takeWhile_append_cons h value
  rw [readField, htake, hdrop, List.tail_cons]

/-- A field that closes a target is its last one. -/
theorem queryFields_append (target : Bytes) {name value : Bytes} (hname : byte '=' ∉ name)
    (hnameEnd : byte '&' ∉ name) (hvalueEnd : byte '&' ∉ value) :
    queryFields (target ++ byte (if target.contains (byte '?') then '&' else '?') ::
        (name ++ byte '=' :: value)) =
      queryFields target ++ [(name, value)] := by
  have hfield : byte '&' ∉ name ++ byte '=' :: value := by
    rw [List.mem_append, List.mem_cons]
    rintro (h | h | h)
    · exact hnameEnd h
    · exact absurd h (by decide)
    · exact hvalueEnd h
  have hsingle := List.splitOn_eq_singleton hfield
  by_cases hquery : byte '?' ∈ target
  · obtain ⟨before, query, rfl, hbefore⟩ := List.eq_append_cons_of_mem hquery
    have hcontains : (before ++ byte '?' :: query).contains (byte '?') = true := by simp
    have hdrop := (takeWhile_append_cons hbefore query).2
    rw [hcontains, if_pos rfl, List.append_assoc, List.cons_append, queryFields, queryFields,
      (takeWhile_append_cons hbefore _).2, hdrop]
    simp only [List.splitOn_append_cons_self, hsingle, List.map_append, List.map_cons,
      List.map_nil, readField_append hname]
  · have hcontains : target.contains (byte '?') = false := by simpa using hquery
    have hnone : target.dropWhile (· != byte '?') = [] := by
      rw [List.dropWhile_eq_nil_iff]
      intro b hb
      rw [bne_iff_ne]
      rintro rfl
      exact hquery hb
    rw [hcontains, if_neg Bool.false_ne_true, queryFields,
      (takeWhile_append_cons hquery _).2, queryFields, hnone]
    simp only [hsingle, List.map_cons, List.map_nil, readField_append hname, List.nil_append]

/-- The fields that a query was written from are read back from the target. -/
theorem queryFields_queryText (target : Bytes) {fields : List (Bytes × Bytes)}
    (hnames : ∀ field ∈ fields, byte '=' ∉ field.1 ∧ byte '&' ∉ field.1)
    (hvalues : ∀ field ∈ fields, byte '&' ∉ field.2) :
    queryFields (target ++ queryText (!target.contains (byte '?')) fields) =
      queryFields target ++ fields := by
  induction fields generalizing target with
  | nil => simp [queryText]
  | cons field rest ih =>
    obtain ⟨name, value⟩ := field
    obtain ⟨hname, hnameEnd⟩ := hnames _ List.mem_cons_self
    have hfirst := queryFields_append target hname hnameEnd (hvalues _ List.mem_cons_self)
    have hrest := ih (target ++ byte (if target.contains (byte '?') then '&' else '?') ::
        (name ++ byte '=' :: value)) (fun field h => hnames field (List.mem_cons_of_mem _ h))
      (fun field h => hvalues field (List.mem_cons_of_mem _ h))
    have hmore : (target ++ byte (if target.contains (byte '?') then '&' else '?') ::
        (name ++ byte '=' :: value)).contains (byte '?') = true := by
      by_cases hquery : byte '?' ∈ target <;> simp [hquery]
    rw [hmore, Bool.not_true, hfirst] at hrest
    rw [queryText]
    simpa using hrest

-- ---------------------------------------------------------------------------
-- The targets of a profile
-- ---------------------------------------------------------------------------

/-- A safe path holds no question mark, so the query starts at the first one. -/
theorem question_not_mem_path {path : Bytes} (h : isSafeRequestPath path = true) :
    byte '?' ∉ path := by
  have hfrom (segment rest : Bytes) (hsafe : isSafePathFrom segment rest = true) :
      byte '?' ∉ rest := by
    have hdigit : ∀ b : UInt8, (upperHexValue b).isSome = true → b ≠ byte '?' :=
      forall_byte (by decide)
    fun_induction isSafePathFrom segment rest with
    | case1 => simp
    | case2 segment b rest hslash ih =>
      simp only [Bool.and_eq_true] at hsafe
      have hb : b ≠ byte '?' := by
        rintro rfl
        exact absurd hslash (by decide)
      simpa [hb.symm] using ih hsafe.2
    | case3 segment b rest _ hplain ih =>
      have hb : b ≠ byte '?' := by
        rintro rfl
        exact absurd hplain (by decide)
      simpa [hb.symm] using ih hsafe
    | case4 segment b _ _ hpercent high low more _ _ hlow hhigh ih =>
      simp only [Bool.and_eq_true] at hsafe
      have hb : b ≠ byte '?' := by
        rintro rfl
        exact absurd hpercent (by decide)
      have hh := hdigit high (by rw [hhigh]; rfl)
      have hl := hdigit low (by rw [hlow]; rfl)
      simpa [hb.symm, hh.symm, hl.symm] using ih hsafe.2
    | case5 => cases hsafe
    | case6 => cases hsafe
    | case7 => cases hsafe
  unfold isSafeRequestPath at h
  match path with
  | [] => simp
  | first :: rest =>
    simp only [Bool.and_eq_true, Bool.or_eq_true, beq_iff_eq, List.isEmpty_iff] at h
    obtain ⟨-, rfl, hrest⟩ := h
    rw [List.mem_cons, not_or]
    refine ⟨by decide, ?_⟩
    rcases hrest with rfl | hrest
    · simp
    · exact hfrom [] rest hrest

/-- A safe name holds no separator. -/
theorem ends_not_mem_name {name : Bytes} (h : isSafeEncodedQueryName name = true) :
    byte '=' ∉ name ∧ byte '&' ∉ name := by
  simp only [isSafeEncodedQueryName, Bool.and_eq_true, List.all_eq_true] at h
  exact ⟨fun hmem => absurd (h.2 _ hmem) (by decide), fun hmem => absurd (h.2 _ hmem) (by decide)⟩

/-- A safe value holds no separator. -/
theorem end_not_mem_value {value : Bytes} (h : isSafeEncodedQueryValue value = true) :
    byte '&' ∉ value := by
  have hdecoded : (decodeQueryValue value).isSome = true := by
    unfold isSafeEncodedQueryValue at h
    split at h
    · simp at h
    · rename_i hsome
      rw [hsome]
      rfl
  have hdigit : ∀ b : UInt8, (upperHexValue b).isSome = true → b ≠ byte '&' :=
    forall_byte (by decide)
  clear h
  fun_induction decodeQueryValue value with
  | case1 => simp
  | case2 b rest hplain ih =>
    have hb : b ≠ byte '&' := by
      rintro rfl
      exact absurd hplain (by decide)
    simpa [hb.symm] using ih (by simpa using hdecoded)
  | case3 b rest _ hplus ih =>
    have hb : b ≠ byte '&' := by
      rintro rfl
      exact absurd hplus (by decide)
    simpa [hb.symm] using ih (by simpa using hdecoded)
  | case4 => cases hdecoded
  | case5 b _ _ hpercent high low more _ _ hlow hhigh _ ih =>
    have hb : b ≠ byte '&' := by
      rintro rfl
      exact absurd hpercent (by decide)
    have hh := hdigit high (by rw [hhigh]; rfl)
    have hl := hdigit low (by rw [hlow]; rfl)
    simpa [hb.symm, hh.symm, hl.symm] using ih (by simpa using hdecoded)
  | case6 => cases hdecoded
  | case7 => cases hdecoded
  | case8 => cases hdecoded

/-- What a built target is, before its size is looked at. -/
def targetText (request : AdmittedRequest) (page : Option (Bytes × UInt64)) : Bytes :=
  request.path ++ queryText true (pageFields request.queryParameters page)

/-- A page changes the value of one field and no name. -/
theorem mem_pageFields {query : List AdmittedQueryParameter} {page : Option (Bytes × UInt64)}
    {field : Bytes × Bytes} (h : field ∈ pageFields query page) :
    ∃ parameter ∈ query, field.1 = parameter.name ∧
      (field.2 = parameter.encodedValue ∨ ∃ number, field.2 = decimal number) := by
  obtain ⟨parameter, hmem, rfl⟩ := List.mem_map.mp h
  refine ⟨parameter, hmem, ?_⟩
  match page with
  | none => exact ⟨rfl, .inl rfl⟩
  | some (name, number) =>
    refine ⟨rfl, ?_⟩
    dsimp only
    split
    · exact .inr ⟨_, rfl⟩
    · exact .inl rfl

/-- The server reads the fields of the profile. -/
theorem queryFields_targetText (request : AdmittedRequest) (page : Option (Bytes × UInt64)) :
    queryFields (targetText request page) = pageFields request.queryParameters page := by
  have hpath := question_not_mem_path request.path_safe
  have hplain : (!request.path.contains (byte '?')) = true := by simpa using hpath
  have hnone : queryFields request.path = [] := by
    have hdrop : request.path.dropWhile (· != byte '?') = [] := by
      rw [List.dropWhile_eq_nil_iff]
      intro b hb
      rw [bne_iff_ne]
      rintro rfl
      exact hpath hb
    rw [queryFields, hdrop]
  have hnames : ∀ field ∈ pageFields request.queryParameters page,
      byte '=' ∉ field.1 ∧ byte '&' ∉ field.1 := by
    intro field hfield
    obtain ⟨parameter, hmem, hname, -⟩ := mem_pageFields hfield
    rw [hname]
    exact ends_not_mem_name (request.names_safe parameter hmem)
  have hvalues : ∀ field ∈ pageFields request.queryParameters page, byte '&' ∉ field.2 := by
    intro field hfield
    obtain ⟨parameter, hmem, -, hvalue | ⟨number, hvalue⟩⟩ := mem_pageFields hfield
    · rw [hvalue]
      exact end_not_mem_value (request.values_safe parameter hmem)
    · rw [hvalue]
      intro hmem
      exact absurd (isDigit_decimal number _ hmem) (by decide)
  have hfields := queryFields_queryText request.path hnames hvalues
  rwa [hplain, hnone, List.nil_append] at hfields

/-- Each field of a query takes two separators beside its name and value. -/
theorem length_queryText (first : Bool) (fields : List (Bytes × Bytes)) :
    (queryText first fields).length =
      (fields.map fun field => 2 + field.1.length + field.2.length).sum := by
  induction fields generalizing first with
  | nil => rfl
  | cons field rest ih =>
    obtain ⟨name, value⟩ := field
    rw [queryText, List.length_append, ih, List.map_cons, List.sum_cons]
    simp only [List.length_cons, List.length_append]
    omega

/-- The running size of a target is its length, where it stays within the limit. -/
theorem targetBytes_eq_ok {total bytes : Nat} {fields : List (Bytes × Bytes)}
    (htotal : total ≤ 8192) :
    targetBytes total fields = .ok bytes ↔
      total + (queryText true fields).length ≤ 8192 ∧
        bytes = total + (queryText true fields).length := by
  rw [length_queryText]
  induction fields generalizing total with
  | nil =>
    rw [targetBytes, pure_eq_ok, List.map_nil, List.sum_nil]
    omega
  | cons field rest ih =>
    obtain ⟨name, value⟩ := field
    rw [targetBytes, bind_eq_ok, List.map_cons, List.sum_cons]
    simp only [throwIf_eq_ok, Bool.or_eq_false_iff, decide_eq_false_iff_not]
    constructor
    · rintro ⟨_, ⟨-, hfits⟩, hrest⟩
      have htail := (ih (by omega)).mp hrest
      omega
    · rintro ⟨hle, rfl⟩
      exact ⟨(), ⟨by omega, by omega⟩, (ih (by omega)).mpr ⟨by omega, by omega⟩⟩

/-- The library reserves little more than it is asked for. -/
def BoundedCapacity (capacity : Nat → Nat) : Prop :=
  ∀ bytes ≤ 16 * 1024, hasBoundedHttpStringCapacity (capacity bytes) (UInt64.ofNat bytes) = true

theorem length_path_le (request : AdmittedRequest) : request.path.length ≤ 2048 := by
  have hsafe := request.path_safe
  simp only [isSafeRequestPath, Bool.and_eq_true, decide_eq_true_eq] at hsafe
  exact hsafe.1

/-- When a target is built, and which. -/
theorem buildRestTarget_eq_ok {capacity : Nat → Nat} (hcapacity : BoundedCapacity capacity)
    (request : AdmittedRequest) {page : Option (Bytes × UInt64)} {target : Bytes} :
    buildRestTarget capacity request.path (pageFields request.queryParameters page) = .ok target ↔
      (targetText request page).length ≤ 8192 ∧ target = targetText request page := by
  have hpath := length_path_le request
  have htext : (targetText request page).length = request.path.length +
      (queryText true (pageFields request.queryParameters page)).length := List.length_append
  rw [htext]
  simp only [buildRestTarget, bind_eq_ok, pure_eq_ok, throwIf_eq_ok,
    targetBytes_eq_ok (Nat.le_trans hpath (by decide))]
  constructor
  · rintro ⟨bytes, ⟨hle, rfl⟩, _, -, _, -, rfl⟩
    exact ⟨hle, rfl⟩
  · rintro ⟨hle, rfl⟩
    refine ⟨_, ⟨hle, rfl⟩, (), ?_, (), ?_, rfl⟩
    · rw [hcapacity _ (by omega)]
      rfl
    · rw [List.length_append, bne_self_eq_false]

-- ---------------------------------------------------------------------------
-- The builders
-- ---------------------------------------------------------------------------

/-- The request of a profile with a given target. -/
def AdmittedRestRequestProfile.requestTo (profile : AdmittedRestRequestProfile) (target : Bytes) :
    HttpRequest :=
  ⟨profile.method, profile.scheme, profile.host, profile.port, target, profile.headers, [], []⟩

/-- The request of the profile to a given target. -/
def AdmittedPaginatedRestRequestProfile.requestTo (profile : AdmittedPaginatedRestRequestProfile)
    (target : Bytes) : HttpRequest :=
  ⟨profile.method, profile.scheme, profile.host, profile.port, target, profile.headers, [], []⟩

/-- A request is built exactly when its target fits. -/
theorem buildAdmittedRestRequest_eq_ok {capacity : Nat → Nat} (hcapacity : BoundedCapacity capacity)
    {profile : AdmittedRestRequestProfile} {request : HttpRequest} :
    buildAdmittedRestRequest capacity profile = .ok request ↔
      (targetText profile.toAdmittedRequest none).length ≤ 8192 ∧
        request = profile.requestTo (targetText profile.toAdmittedRequest none) := by
  simp only [buildAdmittedRestRequest, bind_eq_ok, pure_eq_ok,
    buildRestTarget_eq_ok hcapacity profile.toAdmittedRequest]
  constructor
  · rintro ⟨target, ⟨hle, rfl⟩, rfl⟩
    exact ⟨hle, rfl⟩
  · rintro ⟨hle, rfl⟩
    exact ⟨_, ⟨hle, rfl⟩, rfl⟩

/-- The pages of a profile stay within 64 bits. -/
def AdmittedPaginatedRestRequestProfile.Advances (profile : AdmittedPaginatedRestRequestProfile) :
    Prop :=
  profile.pageIncrement ≠ 0 ∧
    profile.firstPage.toNat + (profile.maxPages.toNat - 1) * profile.pageIncrement.toNat < 2 ^ 64

/-- The page that is so many increments after the first. -/
def AdmittedPaginatedRestRequestProfile.IsPage (profile : AdmittedPaginatedRestRequestProfile)
    (index : Nat) (page : UInt64) : Prop :=
  index < profile.maxPages.toNat ∧
    page.toNat = profile.firstPage.toNat + index * profile.pageIncrement.toNat

/-- The target of a page. -/
def AdmittedPaginatedRestRequestProfile.pageText (profile : AdmittedPaginatedRestRequestProfile)
    (page : UInt64) : Bytes :=
  targetText profile.toAdmittedRequest (some (profile.pageNumberParameter, page))

theorem uint64_ne_zero {x : UInt64} : x ≠ 0 ↔ 0 < x.toNat := by
  rw [Ne, ← UInt64.toNat_inj]
  show ¬x.toNat = 0 ↔ 0 < x.toNat
  omega

theorem toNat_max_sub (x : UInt64) : (0xFFFFFFFFFFFFFFFF - x).toNat = 2 ^ 64 - 1 - x.toNat := by
  have hlt := x.toNat_lt
  have hmax : (0xFFFFFFFFFFFFFFFF : UInt64).toNat = 2 ^ 64 - 1 := rfl
  have hle : x ≤ 0xFFFFFFFFFFFFFFFF := by
    rw [UInt64.le_iff_toNat_le, hmax]
    omega
  rw [UInt64.toNat_sub_of_le _ _ hle, hmax]

theorem toNat_sub_one {x : UInt64} (h : 0 < x.toNat) : (x - 1).toNat = x.toNat - 1 := by
  have hle : 1 ≤ x := by
    rw [UInt64.le_iff_toNat_le]
    exact h
  rw [UInt64.toNat_sub_of_le _ _ hle]
  rfl

/-- The check of the source is that the last page does not leave 64 bits. -/
theorem advances_check {profile : AdmittedPaginatedRestRequestProfile} :
    (profile.maxPages == 0 || profile.pageIncrement == 0 ||
        decide ((0xFFFFFFFFFFFFFFFF - profile.firstPage) / profile.pageIncrement <
          profile.maxPages - 1)) = false ↔
      0 < profile.maxPages.toNat ∧ profile.Advances := by
  have hfirst := profile.firstPage.toNat_lt
  simp only [Bool.or_eq_false_iff, beq_eq_false_iff_ne, decide_eq_false_iff_not,
    UInt64.lt_iff_toNat_lt, UInt64.toNat_div, toNat_max_sub,
    AdmittedPaginatedRestRequestProfile.Advances, uint64_ne_zero, and_assoc]
  refine and_congr_right fun hpages => and_congr_right fun hincrement => ?_
  rw [toNat_sub_one hpages, Nat.not_lt, Nat.le_div_iff_mul_le hincrement]
  omega

/-- The number of the last page, computed without overflow. -/
theorem toNat_lastPage {profile : AdmittedPaginatedRestRequestProfile}
    (hpages : 0 < profile.maxPages.toNat) (h : profile.Advances) :
    (profile.firstPage + (profile.maxPages - 1) * profile.pageIncrement).toNat =
      profile.firstPage.toNat + (profile.maxPages.toNat - 1) * profile.pageIncrement.toNat := by
  have hlt := h.2
  rw [UInt64.toNat_add, UInt64.toNat_mul, toNat_sub_one hpages, Nat.add_mod_mod,
    Nat.mod_eq_of_lt hlt]

/-- The check of the source is that a page lies in the profile's range. -/
theorem range_check {profile : AdmittedPaginatedRestRequestProfile} {page : UInt64}
    (hpages : 0 < profile.maxPages.toNat) (h : profile.Advances) :
    (decide (page < profile.firstPage) ||
        decide (profile.firstPage + (profile.maxPages - 1) * profile.pageIncrement < page) ||
        (page - profile.firstPage) % profile.pageIncrement != 0) = false ↔
      ∃ index, profile.IsPage index page := by
  have hincrement := uint64_ne_zero.mp h.1
  have hzero : (0 : UInt64).toNat = 0 := rfl
  simp only [Bool.or_eq_false_iff, decide_eq_false_iff_not, bne_eq_false_iff_eq,
    UInt64.lt_iff_toNat_lt, toNat_lastPage hpages h, ← UInt64.toNat_inj, UInt64.toNat_mod, hzero]
  constructor
  · rintro ⟨⟨hlow, hhigh⟩, hstep⟩
    rw [UInt64.toNat_sub_of_le _ _ (by rw [UInt64.le_iff_toNat_le]; omega)] at hstep
    obtain ⟨index, hindex⟩ := Nat.dvd_of_mod_eq_zero hstep
    rw [Nat.mul_comm] at hindex
    refine ⟨index, ?_, by omega⟩
    have hle : index * profile.pageIncrement.toNat ≤
        (profile.maxPages.toNat - 1) * profile.pageIncrement.toNat := by omega
    have hindex := Nat.le_of_mul_le_mul_right hle hincrement
    omega
  · rintro ⟨index, hindex, hpage⟩
    have hle : index * profile.pageIncrement.toNat ≤
        (profile.maxPages.toNat - 1) * profile.pageIncrement.toNat :=
      Nat.mul_le_mul_right _ (by omega)
    refine ⟨⟨by omega, by omega⟩, ?_⟩
    rw [UInt64.toNat_sub_of_le _ _ (by rw [UInt64.le_iff_toNat_le]; omega), hpage,
      Nat.add_sub_cancel_left, Nat.mul_mod_left]

/-- When a page is built, and which request it is. -/
theorem buildAdmittedPaginatedRestPageRequest_eq_ok {capacity : Nat → Nat}
    (hcapacity : BoundedCapacity capacity) {profile : AdmittedPaginatedRestRequestProfile}
    {page : UInt64} {request : HttpRequest} :
    buildAdmittedPaginatedRestPageRequest capacity profile page = .ok request ↔
      profile.Advances ∧ (∃ index, profile.IsPage index page) ∧
        (profile.pageText page).length ≤ 8192 ∧ request = profile.requestTo (profile.pageText page) := by
  simp only [buildAdmittedPaginatedRestPageRequest, bind_eq_ok, pure_eq_ok, throwIf_eq_ok,
    advances_check, pageTarget, buildRestTarget_eq_ok hcapacity profile.toAdmittedRequest]
  constructor
  · rintro ⟨_, ⟨hpages, hadvances⟩, _, hrange, target, ⟨hle, rfl⟩, rfl⟩
    exact ⟨hadvances, (range_check hpages hadvances).mp hrange, hle, rfl⟩
  · rintro ⟨hadvances, hrange, hle, rfl⟩
    have hpages : 0 < profile.maxPages.toNat := by
      obtain ⟨index, hindex, -⟩ := hrange
      omega
    exact ⟨(), ⟨hpages, hadvances⟩, (), (range_check hpages hadvances).mpr hrange, _, ⟨hle, rfl⟩, rfl⟩

-- ---------------------------------------------------------------------------
-- The recognisers
-- ---------------------------------------------------------------------------

/-- A smaller number is not written with more digits. -/
theorem length_decimalFrom_le {turns other m n : Nat} (hle : m ≤ n) (hturns : n ≤ other) :
    (decimalFrom turns m).length ≤ (decimalFrom other n).length := by
  induction other generalizing turns m n with
  | zero =>
    obtain rfl : n = 0 := by omega
    obtain rfl : m = 0 := by omega
    cases turns <;> simp [decimalFrom]
  | succ other ih =>
    rw [decimalFrom]
    by_cases hsmall : m < 10
    · have hone : (decimalFrom turns m).length = 1 := by
        cases turns <;> simp [decimalFrom, hsmall]
      rw [hone]
      split <;> simp
    · rw [if_neg (by omega : ¬n < 10), List.length_append]
      cases turns with
      | zero => simp [decimalFrom]
      | succ turns =>
        rw [decimalFrom, if_neg hsmall, List.length_append]
        have hrest := @ih turns (m / 10) (n / 10) (Nat.div_le_div_right hle) (by omega)
        simp only [List.length_cons, List.length_nil]
        omega

/-- An earlier page has no longer target. -/
theorem length_pageText_le (profile : AdmittedPaginatedRestRequestProfile) {page later : UInt64}
    (h : page.toNat ≤ later.toNat) :
    (profile.pageText page).length ≤ (profile.pageText later).length := by
  unfold AdmittedPaginatedRestRequestProfile.pageText targetText
  rw [List.length_append, List.length_append, length_queryText, length_queryText, pageFields,
    pageFields, List.map_map, List.map_map]
  refine Nat.add_le_add_left (List.sum_le_sum fun parameter _ => ?_) _
  simp only [Function.comp]
  split
  · have hdigits : (decimal page.toNat).length ≤ (decimal later.toNat).length :=
      length_decimalFrom_le h (Nat.le_refl _)
    omega
  · exact Nat.le_refl _

/-- The loop over the pages finds the one that has the target, and none before it
throws: their targets are no longer. -/
theorem isPageTarget_iff {capacity : Nat → Nat} (hcapacity : BoundedCapacity capacity)
    {profile : AdmittedPaginatedRestRequestProfile} (hadvances : profile.Advances) {target : Bytes}
    {remaining index : Nat} {page : UInt64}
    (hremaining : index + remaining = profile.maxPages.toNat)
    (hpage : page.toNat = profile.firstPage.toNat + index * profile.pageIncrement.toNat) :
    isPageTarget capacity profile target remaining page = .ok true ↔
      ∃ found later, index ≤ found ∧ profile.IsPage found later ∧
        (profile.pageText later).length ≤ 8192 ∧ target = profile.pageText later := by
  induction remaining generalizing index page with
  | zero =>
    simp only [isPageTarget, pure_eq_ok, Bool.false_eq_true, false_iff]
    rintro ⟨found, later, hfound, ⟨hlt, -⟩, -⟩
    omega
  | succ remaining ih =>
    have hthis : profile.IsPage index page := ⟨by omega, hpage⟩
    have hnext (hfits : ¬0xFFFFFFFFFFFFFFFF - profile.pageIncrement < page) :
        (page + profile.pageIncrement).toNat =
          profile.firstPage.toNat + (index + 1) * profile.pageIncrement.toNat := by
      rw [UInt64.lt_iff_toNat_lt, toNat_max_sub] at hfits
      have hlt := profile.pageIncrement.toNat_lt
      rw [UInt64.toNat_add, Nat.mod_eq_of_lt (by omega), hpage, Nat.succ_mul, Nat.add_assoc]
    rw [isPageTarget, bind_eq_ok]
    simp only [buildAdmittedPaginatedRestPageRequest_eq_ok hcapacity]
    constructor
    · rintro ⟨built, ⟨-, -, hle, rfl⟩, h⟩
      split at h
      · rename_i heq
        exact ⟨index, page, Nat.le_refl _, hthis, hle, (beq_iff_eq.mp heq).symm⟩
      · split at h
        · cases h
        · rename_i hfits
          obtain ⟨found, later, hfound, hlater⟩ := (ih (by omega) (hnext hfits)).mp h
          exact ⟨found, later, by omega, hlater⟩
    · rintro ⟨found, later, hfound, hlater, hle, rfl⟩
      have hmul : index * profile.pageIncrement.toNat ≤ found * profile.pageIncrement.toNat :=
        Nat.mul_le_mul_right _ hfound
      have hbefore : page.toNat ≤ later.toNat := by
        have hvalue := hlater.2
        omega
      have hshort := Nat.le_trans (length_pageText_le profile hbefore) hle
      refine ⟨_, ⟨hadvances, ⟨index, hthis⟩, hshort, rfl⟩, ?_⟩
      split
      · rfl
      · rename_i hother
        have hne : index ≠ found := by
          rintro rfl
          have hsame : page = later := UInt64.toNat_inj.mp (hpage.trans hlater.2.symm)
          rw [hsame] at hother
          exact hother (beq_self_eq_true _)
        have hmul : (index + 1) * profile.pageIncrement.toNat ≤
            found * profile.pageIncrement.toNat := Nat.mul_le_mul_right _ (by omega)
        have hfits : ¬0xFFFFFFFFFFFFFFFF - profile.pageIncrement < page := by
          rw [UInt64.lt_iff_toNat_lt, toNat_max_sub]
          have hvalue := hlater.2
          have hlt := later.toNat_lt
          rw [Nat.succ_mul] at hmul
          omega
        rw [if_neg hfits]
        exact (ih (by omega) (hnext hfits)).mpr ⟨found, later, by omega, hlater, hle, rfl⟩

/-- The headers are the expected ones, and none of them has the reserved name. -/
theorem sameHeaders_iff {actual expected : List HttpHeader} {reserved : Option Bytes} :
    sameHeaders actual expected reserved = true ↔
      actual = expected ∧ ∀ name ∈ reserved, ∀ header ∈ expected,
        equalsAsciiIgnoreCase header.name name = false := by
  rw [sameHeaders, Bool.and_eq_true, beq_iff_eq]
  refine and_congr_right fun hsame => ?_
  subst hsame
  cases reserved with
  | none => simp
  | some name => simp

/-- No header of a profile takes the place of its credential. -/
def Reserves (headers : List HttpHeader) (reserved : Option Bytes) : Prop :=
  ∀ name ∈ reserved, ∀ header ∈ headers, equalsAsciiIgnoreCase header.name name = false

/-- No header of an admitted request is called `Authorization`. -/
theorem reserves_bearer (admitted : AdmittedRequest) :
    Reserves admitted.headers (some (ascii "authorization")) := by
  intro name hname
  obtain rfl := Option.mem_some_iff.mp hname
  exact admitted.headers_owned

/-- No header of an admitted request has the name of its API key. -/
theorem reserves_apiKey (admitted : AdmittedRequest) (hkey : admitted.credential.apiKey = true) :
    Reserves admitted.headers (ApiKey.reserved admitted.credential) := by
  intro name hname
  unfold ApiKey.reserved at hname
  split at hname
  · rename_i hheader
    obtain rfl := Option.mem_some_iff.mp hname
    exact admitted.header_free hkey hheader
  · cases hname

/-- The recogniser accepts what the builder builds. -/
theorem isAdmittedRestRequest_iff {capacity : Nat → Nat} {profile : AdmittedRestRequestProfile}
    {request : HttpRequest} {reserved : Option Bytes} (hreserved : Reserves profile.headers reserved) :
    isAdmittedRestRequest capacity profile request reserved = .ok true ↔
      buildAdmittedRestRequest capacity profile = .ok request := by
  rw [isAdmittedRestRequest, bind_eq_ok]
  have hshape (expected : HttpRequest) (h : buildAdmittedRestRequest capacity profile = .ok expected) :
      expected.headers = profile.headers ∧ expected.body = [] ∧ expected.contentType = [] := by
    rw [buildAdmittedRestRequest, bind_eq_ok] at h
    obtain ⟨target, -, h⟩ := h
    rw [← pure_eq_ok.mp h]
    exact ⟨rfl, rfl, rfl⟩
  constructor
  · rintro ⟨expected, hbuilt, h⟩
    obtain ⟨hheaders, hbody, hcontent⟩ := hshape expected hbuilt
    simp only [pure_eq_ok, Bool.and_eq_true, beq_iff_eq, List.isEmpty_iff, sameHeaders_iff] at h
    obtain ⟨⟨⟨⟨⟨⟨⟨hmethod, hscheme⟩, hhost⟩, hport⟩, htarget⟩, hempty⟩, htype⟩, hsame, -⟩ := h
    rw [hbuilt]
    obtain ⟨_, _, _, _, _, _, _, _⟩ := request
    obtain ⟨_, _, _, _, _, _, _, _⟩ := expected
    simp_all
  · intro hbuilt
    obtain ⟨hheaders, hbody, hcontent⟩ := hshape request hbuilt
    refine ⟨request, hbuilt, ?_⟩
    have hsame : sameHeaders request.headers request.headers reserved = true :=
      sameHeaders_iff.mpr ⟨rfl, by rw [hheaders]; exact hreserved⟩
    simp [hsame, hbody, hcontent]

/-- A request that the profile's builder makes for one of its pages. -/
def BuildsPage (capacity : Nat → Nat) (profile : AdmittedPaginatedRestRequestProfile)
    (request : HttpRequest) : Prop :=
  ∃ index page, index < profile.maxPages.toNat ∧
    page.toNat = profile.firstPage.toNat + index * profile.pageIncrement.toNat ∧
    buildAdmittedPaginatedRestPageRequest capacity profile page = .ok request

/-- A target is a page's only where the profile advances. -/
theorem advances_of_isPageTarget {capacity : Nat → Nat} (hcapacity : BoundedCapacity capacity)
    {profile : AdmittedPaginatedRestRequestProfile} {target : Bytes} {remaining : Nat} {page : UInt64}
    (h : isPageTarget capacity profile target remaining page = .ok true) : profile.Advances := by
  match remaining with
  | 0 => cases h
  | remaining + 1 =>
    rw [isPageTarget, bind_eq_ok] at h
    obtain ⟨built, hbuilt, -⟩ := h
    exact ((buildAdmittedPaginatedRestPageRequest_eq_ok hcapacity).mp hbuilt).1

/-- The recogniser accepts what the builder builds for some page. -/
theorem isAdmittedPaginatedRestRequest_iff {capacity : Nat → Nat}
    (hcapacity : BoundedCapacity capacity) {profile : AdmittedPaginatedRestRequestProfile}
    {request : HttpRequest} {reserved : Option Bytes} (hreserved : Reserves profile.headers reserved) :
    isAdmittedPaginatedRestRequest capacity profile request reserved = .ok true ↔
      BuildsPage capacity profile request := by
  have hloop (hadvances : profile.Advances) (target : Bytes) :=
    @isPageTarget_iff capacity hcapacity profile hadvances target profile.maxPages.toNat 0
      profile.firstPage (Nat.zero_add _) (by omega)
  unfold isAdmittedPaginatedRestRequest
  constructor
  · intro h
    split at h
    · cases h
    rename_i hshape
    have hadvances := advances_of_isPageTarget hcapacity h
    obtain ⟨index, page, -, hpage, hle, htarget⟩ := (hloop hadvances request.target).mp h
    refine ⟨index, page, hpage.1, hpage.2,
      (buildAdmittedPaginatedRestPageRequest_eq_ok hcapacity).mpr
        ⟨hadvances, ⟨index, hpage⟩, hle, ?_⟩⟩
    simp only [Bool.or_eq_true, bne_iff_ne, Bool.not_eq_true', not_or, Classical.not_not,
      Bool.not_eq_false, List.isEmpty_iff, sameHeaders_iff] at hshape
    obtain ⟨⟨⟨⟨⟨⟨hmethod, hscheme⟩, hhost⟩, hport⟩, hbody⟩, hcontent⟩, hsame, -⟩ := hshape
    obtain ⟨_, _, _, _, _, _, _, _⟩ := request
    simp_all [AdmittedPaginatedRestRequestProfile.requestTo]
  · rintro ⟨index, page, hindex, hpage, hbuilt⟩
    obtain ⟨hadvances, -, hle, rfl⟩ :=
      (buildAdmittedPaginatedRestPageRequest_eq_ok hcapacity).mp hbuilt
    have hsame : sameHeaders profile.headers profile.headers reserved = true :=
      sameHeaders_iff.mpr ⟨rfl, hreserved⟩
    rw [if_neg (by simp [AdmittedPaginatedRestRequestProfile.requestTo, hsame])]
    exact (hloop hadvances _).mpr ⟨index, page, Nat.zero_le _, ⟨hindex, hpage⟩, hle, rfl⟩

/-- The recogniser accepts the request of the profile with an admitted body. -/
theorem isAdmittedGraphqlRequest_iff {capacity : Nat → Nat} (hcapacity : BoundedCapacity capacity)
    {profile : AuthorizedGraphqlProfile} {request : HttpRequest} :
    isAdmittedGraphqlRequest profile request = true ↔
      ∃ cursor allowance, buildAdmittedGraphqlRequest capacity
        profile.toAdmittedGraphqlRequestProfile cursor allowance = .ok request := by
  unfold isAdmittedGraphqlRequest
  simp only [Bool.and_eq_true, beq_iff_eq, sameHeaders_iff, decide_eq_true_eq,
    isAdmittedGraphqlBody_iff, buildAdmittedGraphqlRequest_eq_ok]
  constructor
  · rintro ⟨⟨⟨⟨⟨⟨⟨⟨⟨hmethod, hscheme⟩, hhost⟩, hport⟩, htarget⟩, hsame, -⟩, -⟩, hle⟩, hcontent⟩,
      cursor, hcursor, hbody⟩
    have hsmall := profile.maxRequestBodyBytes_le
    rw [hbody] at hle
    refine ⟨cursor, profile.maxRequestBodyBytes, hcursor, by omega, hcapacity _ (by omega), ?_⟩
    obtain ⟨_, _, _, _, _, _, _, _⟩ := request
    simp_all [requestWith]
  · rintro ⟨cursor, allowance, hcursor, hle, -, rfl⟩
    have hbody : (!(graphqlBody profile.toAdmittedGraphqlRequestProfile cursor).isEmpty) = true := by
      simp [graphqlBody, cursorPrefix, bodyPrefix, ascii]
    refine ⟨⟨⟨⟨⟨⟨⟨⟨⟨rfl, rfl⟩, rfl⟩, rfl⟩, rfl⟩, rfl, ?_⟩, hbody⟩, ?_⟩, rfl⟩, cursor, hcursor, rfl⟩
    · intro name hname header hheader
      obtain rfl := Option.mem_some_iff.mp hname
      exact profile.headers_owned header hheader
    · show (graphqlBody profile.toAdmittedGraphqlRequestProfile cursor).length ≤ _
      omega

-- ---------------------------------------------------------------------------
-- One element more
-- ---------------------------------------------------------------------------

/-- What a credential adds to a request. -/
inductive CredentialElement
  | header (name value : Bytes)
  | query (name credential : Bytes)

/-- Where one more field of the query is written. -/
def withField (target name value : Bytes) : Bytes :=
  target ++ byte (if target.contains (byte '?') then '&' else '?') :: (name ++ byte '=' :: value)

/-- The request with the element put into it. -/
def CredentialElement.addTo : CredentialElement → HttpRequest → HttpRequest
  | .header name value, request => { request with headers := request.headers ++ [⟨name, value⟩] }
  | .query name credential, request =>
    { request with target := withField request.target name (formUrlEncode credential) }

/-- The result is the request with the element, and nothing else of the request passes
for it. -/
def CredentialElement.Attached (request result : HttpRequest) : CredentialElement → Prop
  | .header name value =>
    result = { request with headers := request.headers ++ [⟨name, value⟩] } ∧
      (∀ header ∈ request.headers, equalsAsciiIgnoreCase header.name name = false) ∧
      (request.contentType ≠ [] → equalsAsciiIgnoreCase (ascii "Content-Type") name = false)
  | .query name credential =>
    result = { request with target := result.target } ∧ request.target <+: result.target ∧
      (∃ encoded, queryFields result.target = queryFields request.target ++ [(name, encoded)] ∧
        formEscape.decode encoded = credential) ∧
      name ∉ (queryFields request.target).map Prod.fst

/-- The two bounds on a request. -/
def Within (headerBytes : UInt64) (request : HttpRequest) : Prop :=
  headerTotal request ≤ headerBytes.toNat ∧ request.target.length ≤ 8192

/-- A header that is added counts with its name and value. -/
theorem headerTotal_addTo_header (request : HttpRequest) (name value : Bytes) :
    headerTotal ((CredentialElement.header name value).addTo request) =
      headerTotal request + (name.length + 4 + value.length) := by
  have hbytes : headerListBytes (request.headers ++ [⟨name, value⟩]) =
      headerListBytes request.headers + (name.length + 4 + value.length) := by
    simp [headerListBytes, fieldBytes]
  show headerListBytes (request.headers ++ [⟨name, value⟩]) + contentTypeBytes request.contentType =
    headerListBytes request.headers + contentTypeBytes request.contentType + _
  rw [hbytes]
  omega

/-- A header is appended where it fits the limit. -/
theorem appendHeader_eq_ok {headerBytes : UInt64} {request result : HttpRequest}
    {name value : Bytes} {withinLimit : Bool} :
    appendHeader headerBytes request name value withinLimit = .ok result ↔
      withinLimit = true ∧
        headerTotal ((CredentialElement.header name value).addTo request) ≤ headerBytes.toNat ∧
        result = (CredentialElement.header name value).addTo request := by
  rw [headerTotal_addTo_header, ← headerBytesWith_isSome, appendHeader, bind_eq_ok]
  simp only [throwIf_eq_ok, pure_eq_ok, Bool.or_eq_false_iff, Bool.not_eq_false',
    Option.isNone_eq_false_iff]
  constructor
  · rintro ⟨_, ⟨hlimit, hfits⟩, rfl⟩
    exact ⟨hlimit, hfits, rfl⟩
  · rintro ⟨hlimit, hfits, rfl⟩
    exact ⟨(), ⟨hlimit, hfits⟩, rfl⟩

/-- The size that the source computes is the length of the encoding. -/
theorem length_formUrlEncode (value : Bytes) :
    (formUrlEncode value).length = formUrlEncodedSize value := by
  have hbyte (b : UInt8) : (formEscape.encodeByte b).length =
      if isUnreserved b || b == 0x20 then 1 else 3 := by
    unfold Escape.encodeByte formEscape
    by_cases hplain : isUnreserved b = true
    · simp [hplain]
    · by_cases hspace : b = 0x20
      · subst hspace
        decide
      · simp [hplain, hspace]
  rw [formUrlEncodedSize, formUrlEncode, Escape.encode, List.length_flatMap]
  exact congrArg List.sum (List.map_congr_left fun b _ => hbyte b)

/-- A field adds two separators, its name and its value. -/
theorem length_withField (target name value : Bytes) :
    (withField target name value).length =
      target.length + (1 + name.length + 1 + value.length) := by
  simp only [withField, List.length_append, List.length_cons]
  omega

/-- A field is appended where the target still fits. -/
theorem appendQueryField_eq_ok {capacity : Nat → Nat} (hcapacity : BoundedCapacity capacity)
    {name value : Bytes} {request result : HttpRequest} (hvalue : value.length ≤ credentialByteLimit) :
    appendQueryField capacity name request value = .ok result ↔
      ((CredentialElement.query name value).addTo request).target.length ≤ 8192 ∧
        result = (CredentialElement.query name value).addTo request := by
  have hsize := length_formUrlEncode value
  have htext := length_withField request.target name (formUrlEncode value)
  rw [hsize] at htext
  simp only [appendQueryField, bind_eq_ok, throwIf_eq_ok, pure_eq_ok, decide_eq_false_iff_not,
    Bool.or_eq_false_iff, Bool.not_eq_false', bne_eq_false_iff_eq, CredentialElement.addTo, htext]
  constructor
  · rintro ⟨_, -, _, ⟨-, hfits⟩, _, -, _, -, _, -, _, -, rfl⟩
    exact ⟨by omega, rfl⟩
  · rintro ⟨hle, rfl⟩
    exact ⟨(), by omega, (), ⟨by omega, by omega⟩, (), hcapacity _ (by omega), (), hsize, (),
      hcapacity _ (by omega), (), htext, rfl⟩

/-- A field that nothing else of the target is called. -/
theorem attached_query {name credential : Bytes} {request : HttpRequest}
    (hname : isSafeEncodedQueryName name = true)
    (hfree : name ∉ (queryFields request.target).map Prod.fst) :
    (CredentialElement.query name credential).Attached request
      ((CredentialElement.query name credential).addTo request) := by
  obtain ⟨hequals, hend⟩ := ends_not_mem_name hname
  have hvalue : byte '&' ∉ formUrlEncode credential := fun hmem =>
    absurd (separator_not_mem_formEncode credential _ hmem) (by decide)
  refine ⟨rfl, List.prefix_append _ _, ⟨formUrlEncode credential, ?_, ?_⟩, hfree⟩
  · exact queryFields_append request.target hequals hend hvalue
  · exact formEscape.decode_encode credential

/-- A token is copied from a valid authorization that is not anonymous. -/
theorem copyBearerToken_eq_ok {authorization : ScanAuthorization} {token : Bytes} :
    copyBearerToken authorization = .ok token ↔
      (authorization.valid = true ∧ authorization.kind ≠ .anonymous) ∧
        token = authorization.token := by
  rw [copyBearerToken, bind_eq_ok]
  simp only [throwIf_eq_ok, pure_eq_ok, Bool.or_eq_false_iff, Bool.not_eq_false',
    beq_eq_false_iff_ne]
  constructor
  · rintro ⟨_, husable, rfl⟩
    exact ⟨husable, rfl⟩
  · rintro ⟨husable, rfl⟩
    exact ⟨(), husable, rfl⟩

/-- A token is copied from a valid authorization with a credential. -/
theorem copyApiKeyToken_eq_ok {authorization : ScanAuthorization} {token : Bytes} :
    copyApiKeyToken authorization = .ok token ↔
      (authorization.valid = true ∧ authorization.kind = .credential) ∧
        token = authorization.token := by
  rw [copyApiKeyToken, bind_eq_ok]
  simp only [throwIf_eq_ok, pure_eq_ok, Bool.or_eq_false_iff, Bool.not_eq_false',
    bne_eq_false_iff_eq]
  constructor
  · rintro ⟨_, husable, rfl⟩
    exact ⟨husable, rfl⟩
  · rintro ⟨husable, rfl⟩
    exact ⟨(), husable, rfl⟩

-- ---------------------------------------------------------------------------
-- What admission establishes
-- ---------------------------------------------------------------------------

/-- The headers copied so far. -/
structure HeaderCopy.Sound (limit : Nat) (s : HeaderCopy) : Prop where
  fits : headerListBytes s.result ≤ s.headerBytes
  within : s.headerBytes ≤ limit
  owned : ∀ header ∈ s.result, isRuntimeOwnedHeader header.name = false

/-- One header that is copied keeps the copy sound. -/
theorem HeaderCopy.Sound.step {graphql : Bool} {limit : Nat} {s next : HeaderCopy}
    {header : HttpHeader} (hs : s.Sound limit) (h : copyHeader graphql limit s header = some next) :
    next.Sound limit := by
  unfold copyHeader at h
  split at h
  · cases h
  split at h
  · cases h
  split at h
  · split at h
    · cases h
    · simp only [Option.bind_eq_bind, Option.bind_eq_some_iff,
        tryAccumulateRequestHeaderBytes_eq_some, Option.pure_def, Option.some.injEq] at h
      obtain ⟨total, ⟨hle, rfl⟩, rfl⟩ := h
      exact ⟨Nat.le_trans hs.fits (Nat.le_add_right _ _), hle, hs.owned⟩
  · split at h
    · cases h
    rename_i howned
    simp only [Option.bind_eq_bind, Option.bind_eq_some_iff,
      tryAccumulateRequestHeaderBytes_eq_some, Option.pure_def, Option.some.injEq] at h
    obtain ⟨total, ⟨hle, rfl⟩, rfl⟩ := h
    have hbytes : headerListBytes (s.result ++ [header]) =
        headerListBytes s.result + (header.name.length + 4 + header.value.length) := by
      simp [headerListBytes, fieldBytes]
    have hfits := hs.fits
    refine ⟨?_, hle, ?_⟩
    · show headerListBytes (s.result ++ [header]) ≤ s.headerBytes + _
      rw [hbytes]
      exact Nat.add_le_add_right hfits _
    intro other hother
    rcases List.mem_append.mp hother with hmem | hmem
    · exact hs.owned other hmem
    · rw [List.mem_singleton.mp hmem]
      exact Bool.not_eq_true _ ▸ howned

/-- The loop over the headers keeps the copy sound. -/
theorem HeaderCopy.Sound.run {graphql : Bool} {limit : Nat} {planned : List HttpHeader}
    {s final : HeaderCopy} (hs : s.Sound limit)
    (h : copyHeaders graphql limit planned s = some final) : final.Sound limit := by
  induction planned generalizing s with
  | nil =>
    rw [copyHeaders, Option.some.injEq] at h
    exact h ▸ hs
  | cons header rest ih =>
    rw [copyHeaders, Option.bind_eq_bind, Option.bind_eq_some_iff] at h
    obtain ⟨next, hnext, hrest⟩ := h
    exact ih (hs.step hnext) hrest

/-- Headers that are copied are safe and fit the limit. -/
theorem tryCopyFixedHeaders_sound {planned headers : List HttpHeader} {graphql : Bool}
    {maxHeaderBytes : UInt64} (h : tryCopyFixedHeaders planned graphql maxHeaderBytes = some headers) :
    headerListBytes headers ≤ maxHeaderBytes.toNat ∧
      ∀ header ∈ headers, isRuntimeOwnedHeader header.name = false := by
  unfold tryCopyFixedHeaders at h
  split at h
  · cases h
  rw [Option.bind_eq_bind, Option.bind_eq_some_iff] at h
  obtain ⟨s, hrun, h⟩ := h
  split at h
  · obtain rfl := Option.some.inj h
    have hstart : (⟨[], false, 0⟩ : HeaderCopy).Sound maxHeaderBytes.toNat :=
      ⟨Nat.le_refl _, Nat.zero_le _, fun _ hmem => nomatch hmem⟩
    have hsound := hstart.run hrun
    exact ⟨Nat.le_trans hsound.fits hsound.within, hsound.owned⟩
  · cases h

/-- `Authorization` is a name that the runtime owns. -/
theorem not_authorization_of_owned {name : Bytes} (h : isRuntimeOwnedHeader name = false) :
    equalsAsciiIgnoreCase name (ascii "authorization") = false := by
  simp only [isRuntimeOwnedHeader, Bool.or_eq_false_iff, List.any_eq_false] at h
  simpa using h.1.1.1.1 (ascii "authorization") List.mem_cons_self

section Query

variable [CLibrary]

/-- The fields copied so far. -/
structure QuerySound (query : List AdmittedQueryParameter) : Prop where
  names_safe : ∀ p ∈ query, isSafeEncodedQueryName p.name = true
  values_safe : ∀ p ∈ query, isSafeEncodedQueryValue p.encodedValue = true

/-- One binding that is copied keeps the query sound. -/
theorem QuerySound.step {conditional : RestConditionalBindingAuthority} {s next : QueryCopy}
    {binding : QueryBindingFields} (hs : QuerySound s.query)
    (h : copyBinding conditional s binding = .ok (some next)) : QuerySound next.query := by
  rw [copyBinding, bind_eq_ok] at h
  obtain ⟨seen, hseen, h⟩ := h
  match seen with
  | none => cases h
  | some seen =>
    rw [pure_eq_ok] at h
    split at h
    · cases h
    obtain rfl := Option.some.inj h
    have hsafe : isSafeEncodedQueryName binding.name = true ∧
        isSafeEncodedQueryValue binding.encodedValue = true := by
      unfold hasCanonicalBinding at hseen
      split at hseen
      · cases hseen
      · rename_i hsafe
        simpa using hsafe
    refine ⟨?_, ?_⟩
    · intro p hp
      rcases List.mem_append.mp hp with hp | hp
      · exact hs.names_safe p hp
      · rw [List.mem_singleton.mp hp]
        exact hsafe.1
    · intro p hp
      rcases List.mem_append.mp hp with hp | hp
      · exact hs.values_safe p hp
      · rw [List.mem_singleton.mp hp]
        exact hsafe.2

/-- The loop over the bindings keeps the query sound. -/
theorem QuerySound.run {conditional : RestConditionalBindingAuthority}
    {planned : List PlannedRestQueryBinding} {s final : QueryCopy} (hs : QuerySound s.query)
    (h : copyBindings conditional s planned = .ok (some final)) : QuerySound final.query := by
  induction planned generalizing s with
  | nil =>
    rw [copyBindings, pure_eq_ok, Option.some.injEq] at h
    exact h ▸ hs
  | cons binding rest ih =>
    rw [copyBindings, bind_eq_ok] at h
    obtain ⟨next, hnext, h⟩ := h
    match next with
    | none => cases h
    | some next => exact ih (hs.step hnext) h

/-- A query that is copied has safe names and values. -/
theorem tryCopyPermanentQuery_sound {planned : List PlannedRestQueryBinding}
    {conditional : RestConditionalBindingAuthority} {query : List AdmittedQueryParameter}
    (h : tryCopyPermanentQuery planned conditional = .ok (some query)) : QuerySound query := by
  unfold tryCopyPermanentQuery at h
  split at h
  · cases h
  rw [bind_eq_ok] at h
  obtain ⟨final, hrun, h⟩ := h
  match final with
  | none => cases h
  | some final =>
    rw [pure_eq_ok] at h
    split at h
    · obtain rfl := Option.some.inj h
      have hstart : QuerySound [] :=
        ⟨fun _ hmem => (nomatch hmem), fun _ hmem => (nomatch hmem)⟩
      exact hstart.run hrun
    · cases h

/-- A path that is copied is safe. -/
theorem tryCopyPermanentPath_safe {operation : PlannedRestOperation} {path : Bytes}
    (h : tryCopyPermanentPath operation = .ok (some path)) : isSafeRequestPath path = true := by
  unfold tryCopyPermanentPath at h
  split at h
  · cases h
  rw [bind_eq_ok] at h
  obtain ⟨copied, -, h⟩ := h
  rw [pure_eq_ok, Option.bind_eq_bind, Option.bind_eq_some_iff] at h
  obtain ⟨raw, -, h⟩ := h
  dsimp only at h
  generalize (if raw.isEmpty = true then ascii "/" else raw) = text at h
  split at h
  · rename_i hsafe
    rw [Option.some.injEq] at h
    rw [← h]
    simp only [Bool.and_eq_true] at hsafe
    exact hsafe.2
  · cases h

/-- What materialization found out about path, query and headers. -/
theorem materialized_facts {operation : PlannedRestOperation}
    {obligation : AuthenticationObligation} {conditional : RestConditionalBindingAuthority}
    {headerBytes : UInt64} {request : MaterializedRestRequest}
    (h : tryMaterializeRestRequest operation obligation conditional headerBytes =
      .ok (some request)) :
    isSafeRequestPath request.path = true ∧ QuerySound request.query ∧
      headerListBytes request.headers ≤ headerBytes.toNat ∧
      (∀ header ∈ request.headers, isRuntimeOwnedHeader header.name = false) ∧
      placementIsFree obligation request = true := by
  rw [tryMaterializeRestRequest, bind_eq_ok] at h
  obtain ⟨path, hpath, h⟩ := h
  match path with
  | none => cases h
  | some path =>
    obtain ⟨query, hquery, h⟩ := bind_eq_ok.mp h
    match query with
    | none => cases h
    | some query =>
      dsimp only at h
      split at h
      · cases h
      split at h
      · cases h
      rename_i headers hheaders
      rw [pure_eq_ok] at h
      split at h
      · rename_i hfree
        obtain rfl := Option.some.inj h
        obtain ⟨hfits, howned⟩ := tryCopyFixedHeaders_sound hheaders
        exact ⟨tryCopyPermanentPath_safe hpath, tryCopyPermanentQuery_sound hquery, hfits, howned,
          hfree⟩
      · cases h

omit [CLibrary] in
/-- Which credential an obligation asks for. -/
theorem credential_cases {obligation : AuthenticationObligation} {credential : RequiredCredential}
    (h : obligation.credential = some credential) (hkey : credential.apiKey = true) :
    obligation.required = true ∧ obligation.authenticator = .apiKey ∧
      credential.placementName = obligation.placementName ∧
      (credential.headerPlacement = true ∧ obligation.placement = .headerNamed ∨
        credential.headerPlacement = false ∧ obligation.placement = .queryNamed) := by
  unfold AuthenticationObligation.credential at h
  split at h
  · split at h
    · obtain rfl := Option.some.inj h
      cases hkey
    · cases h
  rename_i hrequired
  split at h
  · obtain rfl := Option.some.inj h
    cases hkey
  split at h
  · rename_i hplaced
    obtain rfl := Option.some.inj h
    simp only [Bool.and_eq_true, Bool.or_eq_true, decide_eq_true_eq] at hplaced
    obtain ⟨⟨hauthenticator, hplacement⟩, -⟩ := hplaced
    refine ⟨by simpa using hrequired, hauthenticator, rfl, ?_⟩
    rcases hplacement with hplacement | hplacement
    · exact .inl ⟨decide_eq_true hplacement, hplacement⟩
    · refine .inr ⟨decide_eq_false ?_, hplacement⟩
      rw [hplacement]
      exact fun hne => nomatch hne
  · cases h

/-- The place of the credential is taken by no field and no header. -/
theorem placement_free {operation : PlannedRestOperation}
    {obligation : AuthenticationObligation} {conditional : RestConditionalBindingAuthority}
    {headerBytes : UInt64} {request : MaterializedRestRequest} {credential : RequiredCredential}
    (h : tryMaterializeRestRequest operation obligation conditional headerBytes =
      .ok (some request))
    (hcredential : obligation.credential = some credential) :
    (credential.apiKey = true → credential.headerPlacement = true → ∀ header ∈ request.headers,
      equalsAsciiIgnoreCase header.name credential.placementName = false) ∧
    (credential.inQuery = true → ∀ p ∈ request.query, p.name ≠ credential.placementName) ∧
    (credential.inQuery = true → isSafeEncodedQueryName credential.placementName = true) := by
  obtain ⟨-, -, -, -, hfree⟩ := materialized_facts h
  have hquery (hin : credential.inQuery = true) :
      obligation.required = true ∧ obligation.authenticator = .apiKey ∧
        credential.placementName = obligation.placementName ∧
        obligation.placement = .queryNamed := by
    simp only [RequiredCredential.inQuery, Bool.and_eq_true, Bool.not_eq_true'] at hin
    obtain ⟨hrequired, hkind, hname, ⟨hplaced, -⟩ | ⟨-, hplaced⟩⟩ :=
      credential_cases hcredential hin.1
    · rw [hin.2] at hplaced
      cases hplaced
    · exact ⟨hrequired, hkind, hname, hplaced⟩
  refine ⟨fun hkey hheader header hmem => ?_, fun hin p hmem => ?_, fun hin => ?_⟩
  · obtain ⟨hrequired, hkind, hname, ⟨-, hplaced⟩ | ⟨hplaced, -⟩⟩ :=
      credential_cases hcredential hkey
    · rw [placementIsFree, hrequired, hkind, hplaced] at hfree
      simp only [decide_true, Bool.and_self, if_true, List.all_eq_true, Bool.not_eq_true'] at hfree
      rw [hname]
      exact hfree header hmem
    · rw [hheader] at hplaced
      cases hplaced
  · obtain ⟨hrequired, hkind, hname, hplaced⟩ := hquery hin
    rw [placementIsFree, hrequired, hkind, hplaced] at hfree
    simp only [decide_true, Bool.and_self, if_true, List.all_eq_true, bne_iff_ne] at hfree
    rw [hname]
    exact hfree p hmem
  · obtain ⟨-, -, hname, hplaced⟩ := hquery hin
    rw [hname]
    exact obligation.placement_safe hplaced

/-- Admission gives a profile what its credential relies on. -/
def AdmittedRequest.ofMaterialized {operation : PlannedRestOperation}
    {obligation : AuthenticationObligation} {conditional : RestConditionalBindingAuthority}
    {headerBytes : UInt64} {request : MaterializedRestRequest} {credential : RequiredCredential}
    (h : tryMaterializeRestRequest operation obligation conditional headerBytes =
      .ok (some request))
    (hcredential : obligation.credential = some credential) : AdmittedRequest where
  path := request.path
  queryParameters := request.query
  headers := request.headers
  credential := credential
  headerBytes := headerBytes
  path_safe := (materialized_facts h).1
  names_safe := (materialized_facts h).2.1.names_safe
  values_safe := (materialized_facts h).2.1.values_safe
  headers_fit := ⟨_, (accumulateHeaders_eq_some (Nat.zero_le _)).mpr
    ⟨by rw [Nat.zero_add]; exact (materialized_facts h).2.2.1, rfl⟩⟩
  headers_owned := fun header hmem =>
    not_authorization_of_owned ((materialized_facts h).2.2.2.1 header hmem)
  header_free := (placement_free h hcredential).1
  query_free := (placement_free h hcredential).2.1
  placement_safe := (placement_free h hcredential).2.2

end Query

-- ---------------------------------------------------------------------------
-- The whole
-- ---------------------------------------------------------------------------

/-- The header that carries a bearer token. -/
def bearerElement (authorization : ScanAuthorization) : CredentialElement :=
  .header (ascii "Authorization") (ascii "Bearer " ++ authorization.token)

/-- The header or the query field that carries an API key. -/
def apiKeyElement (credential : RequiredCredential) (authorization : ScanAuthorization) :
    CredentialElement :=
  if credential.headerPlacement then .header credential.placementName authorization.token
  else .query credential.placementName authorization.token

/-- The authorization can be used as a bearer token. -/
def ScanAuthorization.forBearer (authorization : ScanAuthorization) : Prop :=
  authorization.valid = true ∧ authorization.kind ≠ .anonymous

/-- The authorization can be used as an API key. -/
def ScanAuthorization.forApiKey (authorization : ScanAuthorization) : Prop :=
  authorization.valid = true ∧ authorization.kind = .credential

theorem ScanAuthorization.forBearer.length_le {authorization : ScanAuthorization}
    (h : authorization.forBearer) : authorization.token.length ≤ credentialByteLimit :=
  (authorization.token_safe h.2).2

theorem ScanAuthorization.forApiKey.length_le {authorization : ScanAuthorization}
    (h : authorization.forApiKey) : authorization.token.length ≤ credentialByteLimit := by
  refine (authorization.token_safe ?_).2
  rw [h.2]
  exact fun hne => nomatch hne

/-- A bearer token is appended where it can be used and fits. -/
theorem appendBearer_eq_ok {headerBytes : UInt64} {request result : HttpRequest}
    {authorization : ScanAuthorization} :
    appendBearer headerBytes request authorization = .ok result ↔
      authorization.forBearer ∧
        headerTotal ((bearerElement authorization).addTo request) ≤ headerBytes.toNat ∧
        result = (bearerElement authorization).addTo request := by
  rw [appendBearer, bind_eq_ok]
  simp only [copyBearerToken_eq_ok]
  constructor
  · rintro ⟨token, ⟨husable, rfl⟩, h⟩
    exact ⟨husable, (appendHeader_eq_ok.mp h).2⟩
  · rintro ⟨husable, h⟩
    exact ⟨_, ⟨husable, rfl⟩,
      appendHeader_eq_ok.mpr ⟨decide_eq_true (ScanAuthorization.forBearer.length_le husable), h⟩⟩

/-- An API key is appended where it can be used and fits. -/
theorem appendApiKey_eq_ok {capacity : Nat → Nat} (hcapacity : BoundedCapacity capacity)
    {headerBytes : UInt64} {credential : RequiredCredential} {request result : HttpRequest}
    {authorization : ScanAuthorization} :
    appendApiKey capacity headerBytes credential request authorization = .ok result ↔
      authorization.forApiKey ∧
        (if credential.headerPlacement then
          headerTotal ((apiKeyElement credential authorization).addTo request) ≤ headerBytes.toNat
        else ((apiKeyElement credential authorization).addTo request).target.length ≤ 8192) ∧
        result = (apiKeyElement credential authorization).addTo request := by
  rw [appendApiKey, bind_eq_ok]
  simp only [copyApiKeyToken_eq_ok]
  have hlength (husable : authorization.forApiKey) := husable.length_le
  by_cases hheader : credential.headerPlacement = true
  · simp only [hheader, if_true, apiKeyElement, appendHeader_eq_ok, decide_eq_true_eq]
    constructor
    · rintro ⟨token, ⟨husable, rfl⟩, -, h⟩
      exact ⟨husable, h⟩
    · rintro ⟨husable, h⟩
      exact ⟨_, ⟨husable, rfl⟩, hlength husable, h⟩
  · simp only [hheader, Bool.false_eq_true, if_false, apiKeyElement]
    constructor
    · rintro ⟨token, ⟨husable, rfl⟩, h⟩
      exact ⟨husable, (appendQueryField_eq_ok hcapacity (hlength husable)).mp h⟩
    · rintro ⟨husable, h⟩
      exact ⟨_, ⟨husable, rfl⟩, (appendQueryField_eq_ok hcapacity (hlength husable)).mpr h⟩

/-- What an authenticator does with the requests that a builder makes: it adds the
element to these alone and within the bounds, and to each of them that stays within the
bounds. -/
def Grants (builds : HttpRequest → Prop) (usable : Prop) (element : CredentialElement)
    (headerBytes : UInt64) (authorize : HttpRequest → Except ExecutionError HttpRequest) : Prop :=
  (∀ request result, authorize request = .ok result →
    usable ∧ builds request ∧ element.Attached request result ∧ Within headerBytes result) ∧
  (usable → ∀ request, builds request → Within headerBytes (element.addTo request) →
    authorize request = .ok (element.addTo request))

/-- An authorizer grants what it should when recogniser and appender both do. -/
theorem grants_of_iff {builds : HttpRequest → Prop} {usable : Prop} {element : CredentialElement}
    {headerBytes : UInt64} {authorize : HttpRequest → Except ExecutionError HttpRequest}
    (hauthorize : ∀ request result, authorize request = .ok result ↔
      usable ∧ builds request ∧ Within headerBytes (element.addTo request) ∧
        result = element.addTo request)
    (hattached : usable → ∀ request, builds request →
      element.Attached request (element.addTo request)) :
    Grants builds usable element headerBytes authorize := by
  constructor
  · intro request result h
    obtain ⟨husable, hbuilt, hwithin, rfl⟩ := (hauthorize request result).mp h
    exact ⟨husable, hbuilt, hattached husable request hbuilt, hwithin⟩
  · intro husable request hbuilt hwithin
    exact (hauthorize request _).mpr ⟨husable, hbuilt, hwithin, rfl⟩

/-- A request with the headers and a target of an admitted one. -/
structure BuiltFrom (admitted : AdmittedRequest) (request : HttpRequest) : Prop where
  headers : request.headers = admitted.headers
  contentType : request.contentType = []
  target : ∃ page, request.target = targetText admitted page
  target_fits : request.target.length ≤ 8192

/-- A request that was built carries the profile's fields and headers. -/
theorem builtFrom_rest {capacity : Nat → Nat} (hcapacity : BoundedCapacity capacity)
    {profile : AdmittedRestRequestProfile} {request : HttpRequest}
    (h : buildAdmittedRestRequest capacity profile = .ok request) :
    BuiltFrom profile.toAdmittedRequest request := by
  obtain ⟨hle, rfl⟩ := (buildAdmittedRestRequest_eq_ok hcapacity).mp h
  exact ⟨rfl, rfl, ⟨none, rfl⟩, hle⟩

/-- The request of a page carries the profile's fields and headers. -/
theorem builtFrom_page {capacity : Nat → Nat} (hcapacity : BoundedCapacity capacity)
    {profile : AdmittedPaginatedRestRequestProfile} {request : HttpRequest}
    (h : BuildsPage capacity profile request) : BuiltFrom profile.toAdmittedRequest request := by
  obtain ⟨index, page, -, -, h⟩ := h
  obtain ⟨-, -, hle, rfl⟩ := (buildAdmittedPaginatedRestPageRequest_eq_ok hcapacity).mp h
  exact ⟨rfl, rfl, ⟨some (profile.pageNumberParameter, page), rfl⟩, hle⟩

theorem equalsAsciiIgnoreCase_authorization (name : Bytes) :
    equalsAsciiIgnoreCase name (ascii "Authorization") =
      equalsAsciiIgnoreCase name (ascii "authorization") := by
  have hlower : (ascii "Authorization").map asciiLower = (ascii "authorization").map asciiLower := by
    decide +kernel
  rw [equalsAsciiIgnoreCase, equalsAsciiIgnoreCase, hlower]

/-- A bearer token is attached once, as nothing else has its name. -/
theorem attached_bearer {authorization : ScanAuthorization} {request : HttpRequest}
    (howned : ∀ header ∈ request.headers,
      equalsAsciiIgnoreCase header.name (ascii "authorization") = false) :
    (bearerElement authorization).Attached request ((bearerElement authorization).addTo request) := by
  refine ⟨rfl, fun header hmem => ?_, fun _ => by decide +kernel⟩
  rw [equalsAsciiIgnoreCase_authorization]
  exact howned header hmem

namespace BuiltFrom

variable {admitted : AdmittedRequest} {request : HttpRequest}

theorem names (h : BuiltFrom admitted request) :
    (queryFields request.target).map Prod.fst = admitted.queryParameters.map (·.name) := by
  obtain ⟨page, htarget⟩ := h.target
  rw [htarget, queryFields_targetText, pageFields, List.map_map]
  refine List.map_congr_left fun parameter _ => ?_
  cases page <;> rfl

/-- An API key is attached once, as nothing else has its name. -/
theorem attached_apiKey (h : BuiltFrom admitted request) {authorization : ScanAuthorization}
    (hkey : admitted.credential.apiKey = true) :
    (apiKeyElement admitted.credential authorization).Attached request
      ((apiKeyElement admitted.credential authorization).addTo request) := by
  unfold apiKeyElement
  split
  · rename_i hheader
    refine ⟨rfl, ?_, fun hcontent => absurd h.contentType hcontent⟩
    rw [h.headers]
    exact admitted.header_free hkey hheader
  · rename_i hheader
    have hin : admitted.credential.inQuery = true := by
      simp [RequiredCredential.inQuery, hkey, hheader]
    refine attached_query (admitted.placement_safe hin) ?_
    rw [h.names]
    intro hmem
    obtain ⟨parameter, hparameter, hname⟩ := List.mem_map.mp hmem
    exact admitted.query_free hin parameter hparameter hname

theorem within_header (h : BuiltFrom admitted request) {name value : Bytes} :
    headerTotal ((CredentialElement.header name value).addTo request) ≤
        admitted.headerBytes.toNat ↔
      Within admitted.headerBytes ((CredentialElement.header name value).addTo request) :=
  ⟨fun hle => ⟨hle, h.target_fits⟩, fun hwithin => hwithin.1⟩

theorem within_query (h : BuiltFrom admitted request) {name credential : Bytes} :
    ((CredentialElement.query name credential).addTo request).target.length ≤ 8192 ↔
      Within admitted.headerBytes ((CredentialElement.query name credential).addTo request) := by
  obtain ⟨total, htotal⟩ := admitted.headers_fit
  have hfit := ((accumulateHeaders_eq_some (Nat.zero_le _)).mp htotal).1
  have hheaders : headerTotal ((CredentialElement.query name credential).addTo request) =
      headerListBytes admitted.headers := by
    show headerListBytes request.headers + contentTypeBytes request.contentType = _
    rw [h.headers, h.contentType]
    rfl
  exact ⟨fun hle => ⟨by rw [hheaders]; omega, hle⟩, fun hwithin => hwithin.2⟩

theorem within_apiKey (h : BuiltFrom admitted request) {authorization : ScanAuthorization} :
    (if admitted.credential.headerPlacement then
        headerTotal ((apiKeyElement admitted.credential authorization).addTo request) ≤
          admitted.headerBytes.toNat
      else ((apiKeyElement admitted.credential authorization).addTo request).target.length ≤ 8192) ↔
      Within admitted.headerBytes
        ((apiKeyElement admitted.credential authorization).addTo request) := by
  unfold apiKeyElement
  split
  · exact h.within_header
  · exact h.within_query

end BuiltFrom

/-- The three steps of an authenticator: what it is for, which request, the element. -/
theorem authorize_eq_ok {requires : Bool} {fault : ExecutionError}
    {recognised : Except ExecutionError Bool} {append : Except ExecutionError HttpRequest}
    {result : HttpRequest} :
    (do
      throwIf (!requires) fault
      let admitted ← recognised
      throwIf (!admitted) fault
      append) = .ok result ↔
      requires = true ∧ recognised = .ok true ∧ append = .ok result := by
  simp only [bind_eq_ok, throwIf_eq_ok, Bool.not_eq_false']
  constructor
  · rintro ⟨_, hrequires, admitted, hadmitted, _, rfl, happend⟩
    exact ⟨hrequires, hadmitted, happend⟩
  · rintro ⟨hrequires, hadmitted, happend⟩
    exact ⟨(), hrequires, true, hadmitted, (), rfl, happend⟩

/-- A bearer authenticator over the requests of a REST builder. -/
theorem grants_bearer {admitted : AdmittedRequest} {authorization : ScanAuthorization}
    {builds : HttpRequest → Prop} {fault : ExecutionError}
    {recognise : HttpRequest → Except ExecutionError Bool}
    (hbuilt : ∀ request, builds request → BuiltFrom admitted request)
    (hrecognise : ∀ request, recognise request = .ok true ↔ builds request) :
    Grants builds (admitted.credential.bearer = true ∧ authorization.forBearer)
      (bearerElement authorization) admitted.headerBytes (fun request => do
        throwIf (!admitted.credential.bearer) fault
        let recognised ← recognise request
        throwIf (!recognised) fault
        appendBearer admitted.headerBytes request authorization) := by
  refine grants_of_iff (fun request result => ?_) (fun _ request h => attached_bearer ?_)
  · rw [authorize_eq_ok, hrecognise, appendBearer_eq_ok]
    constructor
    · rintro ⟨hrequires, h, husable, hfits, hresult⟩
      exact ⟨⟨hrequires, husable⟩, h, (hbuilt request h).within_header.mp hfits, hresult⟩
    · rintro ⟨⟨hrequires, husable⟩, h, hwithin, hresult⟩
      exact ⟨hrequires, h, husable, hwithin.1, hresult⟩
  · rw [(hbuilt request h).headers]
    exact admitted.headers_owned

/-- An api-key authenticator over the requests of a REST builder. -/
theorem grants_apiKey {capacity : Nat → Nat} (hcapacity : BoundedCapacity capacity)
    {admitted : AdmittedRequest} {authorization : ScanAuthorization} {builds : HttpRequest → Prop}
    {fault : ExecutionError} {recognise : HttpRequest → Except ExecutionError Bool}
    (hbuilt : ∀ request, builds request → BuiltFrom admitted request)
    (hrecognise : ∀ request, admitted.credential.apiKey = true →
      (recognise request = .ok true ↔ builds request)) :
    Grants builds (admitted.credential.apiKey = true ∧ authorization.forApiKey)
      (apiKeyElement admitted.credential authorization) admitted.headerBytes (fun request => do
        throwIf (!admitted.credential.apiKey) fault
        let recognised ← recognise request
        throwIf (!recognised) fault
        appendApiKey capacity admitted.headerBytes admitted.credential request authorization) := by
  refine grants_of_iff (fun request result => ?_)
    (fun husable request h => (hbuilt request h).attached_apiKey husable.1)
  rw [authorize_eq_ok, appendApiKey_eq_ok hcapacity]
  constructor
  · rintro ⟨hrequires, hrecognised, husable, hfits, hresult⟩
    have h := (hrecognise request hrequires).mp hrecognised
    exact ⟨⟨hrequires, husable⟩, h, (hbuilt request h).within_apiKey.mp hfits, hresult⟩
  · rintro ⟨⟨hrequires, husable⟩, h, hwithin, hresult⟩
    exact ⟨hrequires, (hrecognise request hrequires).mpr h, husable,
      (hbuilt request h).within_apiKey.mpr hwithin, hresult⟩

/-- The authorizer of GraphQL requests grants what it should. -/
theorem grants_graphql {capacity : Nat → Nat} (hcapacity : BoundedCapacity capacity)
    (profile : AuthorizedGraphqlProfile) (authorization : ScanAuthorization) :
    Grants
      (fun request => ∃ cursor allowance, buildAdmittedGraphqlRequest capacity
        profile.toAdmittedGraphqlRequestProfile cursor allowance = .ok request)
      (profile.requiresBearer = true ∧ authorization.forBearer)
      (bearerElement authorization) profile.headerBytes
      (Bearer.authorizeGraphql profile · authorization) := by
  have hpath : profile.path.length ≤ 8192 := by
    have hsafe := profile.path_safe
    simp only [isSafeRequestPath, Bool.and_eq_true, decide_eq_true_eq] at hsafe
    omega
  have hshape (request : HttpRequest) (h : ∃ cursor allowance, buildAdmittedGraphqlRequest capacity
        profile.toAdmittedGraphqlRequestProfile cursor allowance = .ok request) :
      request.headers = profile.headers ∧ request.target = profile.path := by
    obtain ⟨cursor, allowance, h⟩ := h
    obtain ⟨-, -, -, rfl⟩ := buildAdmittedGraphqlRequest_eq_ok.mp h
    exact ⟨rfl, rfl⟩
  refine grants_of_iff (fun request result => ?_) (fun _ request h => attached_bearer ?_)
  · rw [Bearer.authorizeGraphql, bind_eq_ok]
    simp only [throwIf_eq_ok, Bool.or_eq_false_iff, Bool.not_eq_false',
      isAdmittedGraphqlRequest_iff hcapacity, appendBearer_eq_ok]
    constructor
    · rintro ⟨_, ⟨hrequires, h⟩, husable, hfits, hresult⟩
      have htarget : ((bearerElement authorization).addTo request).target.length ≤ 8192 := by
        show request.target.length ≤ 8192
        rw [(hshape request h).2]
        exact hpath
      exact ⟨⟨hrequires, husable⟩, h, ⟨hfits, htarget⟩, hresult⟩
    · rintro ⟨⟨hrequires, husable⟩, h, hwithin, hresult⟩
      exact ⟨(), ⟨hrequires, h⟩, husable, hwithin.1, hresult⟩
  · rw [(hshape request h).1]
    exact profile.headers_owned

/-- Both authenticators, over the three kinds of profiles. The usable authorizations are
the valid ones of the right kind under a profile that asks for the credential; a request
counts as built where the builder of the profile returns it: for the profile itself, for
one of its pages, or for some cursor and allowance. -/
theorem credentials_attached_once {capacity : Nat → Nat}
    (hcapacity : ∀ bytes ≤ 16 * 1024,
      hasBoundedHttpStringCapacity (capacity bytes) (UInt64.ofNat bytes) = true)
    (authorization : ScanAuthorization) :
    (∀ profile : AdmittedRestRequestProfile,
      Grants (fun request => buildAdmittedRestRequest capacity profile = .ok request)
        (profile.credential.bearer = true ∧ authorization.forBearer)
        (bearerElement authorization) profile.headerBytes
        (Bearer.authorizeRest capacity profile · authorization) ∧
      Grants (fun request => buildAdmittedRestRequest capacity profile = .ok request)
        (profile.credential.apiKey = true ∧ authorization.forApiKey)
        (apiKeyElement profile.credential authorization) profile.headerBytes
        (ApiKey.authorizeRest capacity profile · authorization)) ∧
    (∀ profile : AdmittedPaginatedRestRequestProfile,
      Grants (BuildsPage capacity profile)
        (profile.credential.bearer = true ∧ authorization.forBearer)
        (bearerElement authorization) profile.headerBytes
        (Bearer.authorizePaginatedRest capacity profile · authorization) ∧
      Grants (BuildsPage capacity profile)
        (profile.credential.apiKey = true ∧ authorization.forApiKey)
        (apiKeyElement profile.credential authorization) profile.headerBytes
        (ApiKey.authorizePaginatedRest capacity profile · authorization)) ∧
    (∀ profile : AuthorizedGraphqlProfile,
      Grants
        (fun request => ∃ cursor allowance, buildAdmittedGraphqlRequest capacity
          profile.toAdmittedGraphqlRequestProfile cursor allowance = .ok request)
        (profile.requiresBearer = true ∧ authorization.forBearer)
        (bearerElement authorization) profile.headerBytes
        (Bearer.authorizeGraphql profile · authorization)) := by
  refine ⟨fun profile => ⟨?_, ?_⟩, fun profile => ⟨?_, ?_⟩, fun profile => ?_⟩
  · exact grants_bearer (fun request h => builtFrom_rest hcapacity h)
      (fun request => isAdmittedRestRequest_iff (reserves_bearer profile.toAdmittedRequest))
  · exact grants_apiKey hcapacity (fun request h => builtFrom_rest hcapacity h)
      (fun request hkey => isAdmittedRestRequest_iff (reserves_apiKey profile.toAdmittedRequest hkey))
  · exact grants_bearer (fun request h => builtFrom_page hcapacity h)
      (fun request => isAdmittedPaginatedRestRequest_iff hcapacity
        (reserves_bearer profile.toAdmittedRequest))
  · exact grants_apiKey hcapacity (fun request h => builtFrom_page hcapacity h)
      (fun request hkey => isAdmittedPaginatedRestRequest_iff hcapacity
        (reserves_apiKey profile.toAdmittedRequest hkey))
  · exact grants_graphql hcapacity profile authorization

/-- Ten pages of items behind a key in the query. -/
theorem items_path_safe : isSafeRequestPath (ascii "/items") = true := by decide +kernel

def itemPages : AdmittedPaginatedRestRequestProfile where
  method := ascii "GET"
  scheme := ascii "https"
  host := ascii "api.example.com"
  port := 443
  path := ascii "/items"
  queryParameters := [⟨ascii "per_page", ascii "50"⟩, ⟨ascii "page", ascii "1"⟩]
  headers := [⟨ascii "Accept", ascii "application/json"⟩]
  credential := ⟨false, true, false, ascii "api_key"⟩
  headerBytes := 4096
  pageNumberParameter := ascii "page"
  firstPage := 1
  pageIncrement := 1
  maxPages := 10
  path_safe := items_path_safe
  names_safe := by decide +kernel
  values_safe := by decide +kernel
  headers_fit := ⟨26, by decide +kernel⟩
  headers_owned := by decide +kernel
  header_free := fun _ hheader => nomatch hheader
  query_free := by decide +kernel
  placement_safe := by decide +kernel

def itemKey : ScanAuthorization where
  kind := .credential
  valid := true
  token := ascii "k&y=1"
  token_safe := by decide +kernel

theorem credentials_attached_once_second_page :
    ApiKey.authorizePaginatedRest id itemPages
        (itemPages.requestTo (ascii "/items?per_page=50&page=2")) itemKey =
      .ok (itemPages.requestTo (ascii "/items?per_page=50&page=2&api_key=k%26y%3D1")) := by
  have hbuilt : BuildsPage id itemPages (itemPages.requestTo (ascii "/items?per_page=50&page=2")) :=
    ⟨1, 2, by decide, by decide, rfl⟩
  have hwithin : Within itemPages.headerBytes ((apiKeyElement itemPages.credential itemKey).addTo
      (itemPages.requestTo (ascii "/items?per_page=50&page=2"))) :=
    ⟨by decide +kernel, by decide +kernel⟩
  have hpages := (credentials_attached_once exact_capacity itemKey).2.1 itemPages
  exact hpages.2.2 ⟨rfl, rfl, rfl⟩ _ hbuilt hwithin

end Cuac.Runtime.Authentication
