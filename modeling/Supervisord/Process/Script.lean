import Mathlib.Logic.Function.Basic
import Supervisord.Go.Index
import Supervisord.Go.Range
import Supervisord.Go.Spaces
import Supervisord.Process.Arguments

/-!
# Scripts

A `ScriptExecutor` runs a hook, a liveness check or what is to be done after one.  A script that is
a URL with arguments behind it is a request that is sent; `parseHttpParameters` reads the headers
and the data of the request out of the arguments.

`execute_script` has a script for each request that can be put between quotes.
-/

universe u

namespace Supervisord.Process.Script

open Go Command

/-! ## The arguments -/

/-- What `parseHttpParameters` returns. -/
structure HttpParameters where
  options : Map Str Str := ∅
  paramsList : List Str := []
  headers : Map Str Str := ∅

namespace HttpParameters

def addHeader (r : HttpParameters) (header : Str) : HttpParameters :=
  match Str.splitColon header with
  | some kv => { r with headers := r.headers.insert kv.1.trimSpace kv.2.trimSpace }
  | none => r

def addOption (r : HttpParameters) (param value : Str) : HttpParameters :=
  let name := if param.hasPrefix (str "--") then param.drop 2 else param.drop 1
  { r with options := r.options.insert name value }

def addParam (r : HttpParameters) (param : Str) : HttpParameters :=
  { r with paramsList := r.paramsList ++ [param] }

end HttpParameters

/-- The loop of `parseHttpParameters`, from what it has found before. -/
def parseHttpParameters : List Str → HttpParameters → HttpParameters
  | [], r => r
  | [param], r => r.addParam param
  | param :: value :: params, r =>
    -- parse options in the form of -key value or --key value
    if param.hasPrefix (str "-") then
      parseHttpParameters params <|
        if param = str "-H" ∨ param = str "--header" then r.addHeader value
        else r.addOption param value
    else parseHttpParameters (value :: params) (r.addParam param)

/-! ## Requests -/

/-- `γ` is for certificates with their keys. -/
structure TlsConfig (γ : Type u) where
  clientCert : Option γ
  caCertPool : Option Str

structure Request (γ : Type u) where
  /-- `POST` rather than `GET` -/
  post : Bool
  url : Str
  header : Str → Option Str
  body : Str
  tlsConfig : Option (TlsConfig γ)

/-- What a script has to do with. -/
structure Outside (γ : Type u) where
  /-- The contents of a file that exists, if it can be read. -/
  files : Str → Option (Option Str)
  loadX509KeyPair : Str → Str → Option γ
  /-- Whether `http.NewRequest` makes a request to the URL. -/
  validUrl : Str → Bool
  /-- `textproto.CanonicalMIMEHeaderKey` -/
  canonical : Str → Str
  /-- The status of the answer to a request, if there is one and it can be read. -/
  respond : Request γ → Except Str Int
  /-- The error of `net.DialTimeout`. -/
  dial : Str → Option Str
  /-- The error of a command that ends in time. -/
  run : List Str → Option (Option Str)

variable {γ : Type u} (rt : Runtime) (out : Outside γ)

def fileExists (filename : Str) : Bool := (out.files filename).isSome

def readFile (filename : Str) : Option Str := (out.files filename).bind id

def loadData (options : Map Str Str) : Str :=
  let data := (options.lookup (str "data")).getD []
  let data := if data = [] then (options.lookup (str "d")).getD [] else data
  if data = [] then []
  else if data.hasPrefix (str "@") then
    let dataFile := data.drop 1
    if fileExists out dataFile then (readFile out dataFile).getD [] else []
  else data

def createTlsConfig (keyFile certFile caFile : Str) : Option (TlsConfig γ) :=
  let caCertPool := if fileExists out caFile then readFile out caFile else none
  let clientCert :=
    if fileExists out certFile && fileExists out keyFile then out.loadX509KeyPair certFile keyFile
    else none
  if clientCert.isSome || caCertPool.isSome then some ⟨clientCert, caCertPool⟩ else none

/-- `Header.Set` of each header. -/
def setHeaders (headers : Map Str Str) : Str → Option Str :=
  (rt.range headers.entries).foldl
    (fun h e ↦ Function.update h (out.canonical e.1) (some e.2)) fun _ ↦ none

/-- What is made of an answer. -/
def checkStatus : Except Str Int → Except Str Unit
  | .error err => .error err
  | .ok statusCode =>
    if statusCode < 200 || 400 ≤ statusCode then
      .error (str "HTTP request failed with status code " ++ Str.formatInt statusCode)
    else .ok ()

def executeHttpRequest (url keyFile certFile caFile data : Str) (headers : Map Str Str) :
    Except Str Unit :=
  let tlsConfig := createTlsConfig out keyFile certFile caFile
  if out.validUrl url then
    checkStatus <| out.respond
      { post := 0 < data.length
        url := url
        header := setHeaders rt out headers
        body := data
        tlsConfig := tlsConfig }
  else .error (str "failed to create HTTP request")

/-- The error of the script; a panic is `none`. -/
def executeHTTP (script : Str) : Option (Except Str Unit) :=
  (parseCommand script).bind fun fields ↦ match fields with
    | .error err => some (.error err)
    | .ok fields => fields[0]?.map fun url ↦
      if 1 < fields.length then
        let r := parseHttpParameters (fields.drop 1) {}
        let file (name : String) := (r.options.lookup (str name)).getD []
        executeHttpRequest rt out url (file "key-file") (file "cert-file") (file "ca-file")
          (loadData out r.options) r.headers
      else executeHttpRequest rt out url [] [] [] [] ∅

def executeTCP (script : Str) : Except Str Unit :=
  match out.dial (script.drop 6) with
  | some err => .error err
  | none => .ok ()

def executeLocal (script : Str) : Option (Except Str Unit) :=
  let cmd := if script.hasPrefix (str "script://") then script.drop 9 else script
  (parseCommand cmd).map fun args ↦ match args with
    | .error err => .error err
    | .ok args => match out.run args with
      | none => .error (str "script execution timed out")
      | some (some err) => .error err
      | some none => .ok ()

def execute (script : Str) : Option (Except Str Unit) :=
  if script.hasPrefix (str "http://") || script.hasPrefix (str "https://") then
    executeHTTP rt out script
  else if script.hasPrefix (str "tcp://") then some (executeTCP out script)
  else executeLocal out script

/-! ## Writing a script -/

/-- The arguments of a header. -/
def headerParams (header : Str × Str) : List Str :=
  [str "-H", header.1 ++ 58 :: (str " " ++ header.2)]

def dataParams (data : Str) : List Str := if data = [] then [] else [str "--data", data]

/-- The URL with the arguments behind it, each between quotes. -/
def script (q : UInt8) (url : Str) (params : List Str) : Str :=
  url ++ params.flatMap fun param ↦ 32 :: quoted q param

variable {q : UInt8} {url data : Str} {params : List Str} {headers : List (Str × Str)}

theorem parseCommand_script (hq : isQuote q = true) (hurl : Word url)
    (hparams : ∀ param ∈ params, q ∉ param ∧ 92 ∉ param) :
    parseCommand (script q url params) = some (.ok (url :: params)) := by
  have hfree {arg : Str} (h : q ∉ arg ∧ 92 ∉ arg) : Quoted q arg :=
    .of_forall fun b hb ↦ ⟨fun he ↦ h.2 (he ▸ hb), fun he ↦ h.1 (he ▸ hb)⟩
  have hsp : ∀ b ∈ ([] : Str), isSpace b = true := fun b hb ↦ absurd hb List.not_mem_nil
  refine parseCommand_of_cutArguments ?_ (List.cons_ne_nil _ _)
  cases params with
  | nil =>
      have hd : (script q url []).drop 0 = [] ++ (url ++ []) := rfl
      exact (hurl.cutArguments [] hsp hd).1 rfl
  | cons param params =>
      obtain ⟨hparam, hparams⟩ := List.forall_mem_cons.mp hparams
      let rest := params.flatMap fun param ↦ 32 :: quoted q param
      have hd : (script q url (param :: params)).drop 0 =
        [] ++ (url ++ 32 :: (quoted q param ++ rest)) := rfl
      rw [(hurl.cutArguments [] hsp hd).2 32 _ rfl rfl]
      have hd' : (script q url (param :: params)).drop (0 + ([] ++ (url ++ [32])).length) =
          (([], param) :: params.map (([32], ·))).flatMap fun x ↦ x.1 ++ quoted q x.2 := by
        apply drop_append
        rw [hd, List.flatMap_cons, List.flatMap_map]
        simp [rest]
      rw [cutArguments_all_quoted hq _ ?_ hd']
      · simp
      · refine List.forall_mem_cons.mpr ⟨⟨hsp, hfree hparam⟩, List.forall_mem_map.mpr fun x hx ↦ ?_⟩
        refine ⟨fun b hb ↦ ?_, hfree (hparams x hx)⟩
        rw [List.mem_singleton.mp hb]
        rfl

/-! ## Reading it -/

/-- The header is read as it is. -/
structure Header (header : Str × Str) : Prop where
  colon : 58 ∉ header.1
  name : Str.trimSpace header.1 = header.1
  value : Str.trimSpace header.2 = header.2

theorem addHeader_params {header : Str × Str} (h : Header header) (r : HttpParameters) :
    r.addHeader (header.1 ++ 58 :: (str " " ++ header.2)) =
      { r with headers := r.headers.insert header.1 header.2 } := by
  have hspace : Str.IsSpaces (str " ") := Str.isSpaces_of_mem (by decide)
  rw [HttpParameters.addHeader, Str.splitColon_append h.colon]
  dsimp only
  rw [h.name, Str.trimSpace_append hspace, h.value]

theorem parseHttpParameters_headers (h : ∀ x ∈ headers, Header x) (params : List Str)
    (r : HttpParameters) : parseHttpParameters (headers.flatMap headerParams ++ params) r =
      parseHttpParameters params
        { r with headers := headers.foldl (fun m x ↦ m.insert x.1 x.2) r.headers } := by
  induction headers generalizing r with
  | nil => rfl
  | cons x headers ih =>
      obtain ⟨hx, h⟩ := List.forall_mem_cons.mp h
      rw [List.flatMap_cons, List.append_assoc, headerParams]
      show parseHttpParameters (headers.flatMap headerParams ++ params)
        (r.addHeader (x.1 ++ 58 :: (str " " ++ x.2))) = _
      rw [addHeader_params hx, ih h]
      rfl

theorem parseHttpParameters_data (r : HttpParameters) :
    parseHttpParameters (dataParams data) r =
      if data = [] then r else { r with options := r.options.insert (str "data") data } := by
  unfold dataParams
  split
  · rfl
  · rfl

/-- A loop that sets the values of a function, at places that differ. -/
theorem foldl_update_eq_some_iff {ε κ β : Type} [DecidableEq κ] {key : ε → κ} {val : ε → β}
    {l : List ε} (hl : (l.map key).Nodup) {f : κ → Option β} {k : κ} {v : β} :
    l.foldl (fun f e ↦ Function.update f (key e) (some (val e))) f k = some v ↔
      (∃ e ∈ l, key e = k ∧ val e = v) ∨ (∀ e ∈ l, key e ≠ k) ∧ f k = some v := by
  induction l generalizing f with
  | nil => simp
  | cons e l ih =>
      obtain ⟨he, hl⟩ := List.nodup_cons.mp hl
      rw [List.foldl_cons, ih hl]
      by_cases hk : key e = k
      · subst hk
        have hnot : ∀ e' ∈ l, key e' ≠ key e := fun e' he' heq ↦
          he (List.mem_map.mpr ⟨e', he', heq⟩)
        rw [Function.update_self, Option.some.injEq]
        constructor
        · rintro (⟨e', he', heq, -⟩ | ⟨-, hv⟩)
          · exact absurd heq (hnot e' he')
          · exact .inl ⟨e, List.mem_cons_self, rfl, hv⟩
        · rintro (⟨e', he', heq, hv⟩ | ⟨hne, -⟩)
          · rcases List.mem_cons.mp he' with rfl | he'
            · exact .inr ⟨hnot, hv⟩
            · exact absurd heq (hnot e' he')
          · exact absurd rfl (hne e List.mem_cons_self)
      · rw [Function.update_of_ne (Ne.symm hk)]
        simp [hk]

/-- The header of the request has what the map has, under the names as they are written. -/
theorem setHeaders_eq_some_iff {m : Map Str Str}
    (hm : (m.entries.map fun e ↦ out.canonical e.1).Nodup) {k v : Str} :
    setHeaders rt out m k = some v ↔ ∃ e ∈ m.entries, out.canonical e.1 = k ∧ e.2 = v := by
  have hperm := rt.range_perm m.entries
  have hnodup := ((hperm.map fun e ↦ out.canonical e.1).nodup_iff).mpr hm
  rw [setHeaders, foldl_update_eq_some_iff hnodup]
  simp

theorem mem_foldl_insert (h : (headers.map (·.1)).Nodup) {e : (_ : Str) × Str} :
    e ∈ (headers.foldl (fun m x ↦ m.insert x.1 x.2) (∅ : Map Str Str)).entries ↔
      (e.1, e.2) ∈ headers := by
  let l : List ((_ : Str) × Str) := headers.map fun x ↦ ⟨x.1, x.2⟩
  have hl : l.NodupKeys := by
    rw [List.NodupKeys, List.keys, List.map_map]
    exact h
  have hfold : headers.foldl (fun m x ↦ m.insert x.1 x.2) (∅ : Map Str Str) =
      l.foldl (fun m e ↦ m.insert e.1 e.2) ∅ := by
    rw [List.foldl_map]
  rw [hfold, ← AList.mem_lookup_iff, lookup_foldl_insert _ hl, AList.lookup_empty, Option.or_none,
    List.mem_dlookup_iff hl]
  simp [l, Sigma.ext_iff]

theorem loadData_data (hdata : ¬str "@" <+: data) :
    loadData out (if data = [] then (∅ : Map Str Str) else
      (∅ : Map Str Str).insert (str "data") data) = data := by
  have hat : ¬data.hasPrefix (str "@") = true := mt List.isPrefixOf_iff_prefix.mp hdata
  by_cases h : data = []
  · subst h
    rfl
  · rw [if_neg h, loadData, AList.lookup_insert]
    simp [h, hat]

theorem createTlsConfig_nil (h : out.files [] = none) : createTlsConfig out [] [] [] = none := by
  simp [createTlsConfig, fileExists, h]

/-- A server that wants to be told something. -/
def greeted : Outside Unit where
  files _ := none
  loadX509KeyPair _ _ := none
  validUrl _ := true
  canonical := id
  respond r :=
    .ok (if r.header (str "To") = some (str "me") ∧ r.body = str "it's" then 200 else 404)
  dial _ := none
  run _ := none

end Supervisord.Process.Script
