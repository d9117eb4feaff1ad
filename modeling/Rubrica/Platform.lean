import Mathlib.Data.List.Sort
import Mathlib.Data.Rat.Defs
import Rubrica.Billing.Event
import Rubrica.Transactions.Program

set_option autoImplicit false

/-! # What the services stand on

JSON objects, the exceptions of the services, and `Host`: the functions of the standard library, of
the PDF and cryptography packages and of the other processes that the services call. -/

namespace Rubrica

open Transactions

/-! ## JSON -/

inductive Json where
  | null
  | bool (b : Bool)
  | int (n : Int)
  /-- A binary64 number; every one of them is rational. -/
  | real (x : Rat)
  | text (s : String)
  | list (items : List Json)
  | dict (items : List (String × Json))

/-- `dict[str, object]`, in insertion order. -/
abbrev Dict := List (String × Json)

namespace Dict

def get? (d : Dict) (key : String) : Option Json :=
  (d.find? fun x => x.1 = key).map Prod.snd

/-- `d[key] = value`. -/
def set (d : Dict) (key : String) (value : Json) : Dict :=
  if d.any fun x => x.1 = key then d.map fun x => if x.1 = key then (key, value) else x
  else d ++ [(key, value)]

/-- `d | other`. -/
def union (d other : Dict) : Dict :=
  other.foldl (fun d x => d.set x.1 x.2) d

/-- The text under a key, `""` when there is none: what an f-string of a text entry shows. -/
def text (d : Dict) (key : String) : String :=
  match d.get? key with
  | some (.text s) => s
  | _ => ""

end Dict

namespace Json

def ofText : Option String → Json
  | none => .null
  | some s => .text s

/-- A character inside a JSON string, where only what must be escaped is. -/
def escaped (c : Char) : String :=
  match c.toNat with
  | 8 => "\\b"
  | 9 => "\\t"
  | 10 => "\\n"
  | 12 => "\\f"
  | 13 => "\\r"
  | 34 => "\\\""
  | 92 => "\\\\"
  | n => if n < 32 then "\\u00" ++ String.ofList [Nat.digitChar (n / 16), Nat.digitChar (n % 16)]
      else c.toString

def quoted (s : String) : String :=
  "\"" ++ String.join (s.toList.map escaped) ++ "\""

/-- `key:value` for every entry, sorted by key. -/
def members (entries : List (String × String)) : String :=
  ",".intercalate ((entries.insertionSort fun a b => a.1 ≤ b.1).map fun x => quoted x.1 ++ ":" ++ x.2)

mutual

/-- `json.dumps(.., ensure_ascii=False, sort_keys=True, separators=(",", ":"))`; `float` is `repr`. -/
def dumps (float : Rat → String) : Json → String
  | .null => "null"
  | .bool b => if b then "true" else "false"
  | .int n => toString n
  | .real x => float x
  | .text s => quoted s
  | .list items => "[" ++ ",".intercalate (dumpsList float items) ++ "]"
  | .dict items => "\x7b" ++ members (dumpsDict float items) ++ "\x7d"

def dumpsList (float : Rat → String) : List Json → List String
  | [] => []
  | x :: rest => x.dumps float :: dumpsList float rest

def dumpsDict (float : Rat → String) : List (String × Json) → List (String × String)
  | [] => []
  | (key, x) :: rest => (key, x.dumps float) :: dumpsDict float rest

end

end Json

/-! ## Exceptions -/

structure WorkflowError where
  message : String
  statusCode : Nat
  code : Option String
  context : List (String × Nat)
  deriving DecidableEq, Repr

inductive Failure where
  | workflow (e : WorkflowError)
  /-- A constraint of the database is violated. -/
  | integrity
  /-- Any other exception, by the name of its type. -/
  | other (name : String)
  deriving DecidableEq, Repr

instance : Faulty Failure := ⟨.other "OperationalError"⟩

namespace Failure

/-- `WorkflowError(message, status_code)`. -/
def error (message : String) (statusCode : Nat) : Failure :=
  .workflow ⟨message, statusCode, none, []⟩

/-- `type(exc).__name__`. -/
def typeName : Failure → String
  | workflow _ => "WorkflowError"
  | integrity => "IntegrityError"
  | other name => name

end Failure

theorem bind_eq_ok {ε α β : Type} {x : Except ε α} {f : α → Except ε β} {b : β} :
    (x >>= f) = .ok b ↔ ∃ a, x = .ok a ∧ f a = .ok b := by
  cases x with
  | ok a => simp [bind, Except.bind]
  | error e => simp [bind, Except.bind]

section Lists

variable {α β : Type} {f : α → Except Failure β} {l : List α} {l' : List β}

theorem mapM_cons_eq_ok {x : α} {ys : List β} :
    (x :: l).mapM f = .ok ys ↔ ∃ y ys', f x = .ok y ∧ l.mapM f = .ok ys' ∧ ys = y :: ys' := by
  rw [List.mapM_cons, bind_eq_ok]
  constructor
  · rintro ⟨y, hy, h⟩
    obtain ⟨ys', hys', h⟩ := bind_eq_ok.1 h
    exact ⟨y, ys', hy, hys', (Except.ok.inj h).symm⟩
  · rintro ⟨y, ys', hy, hys', rfl⟩
    exact ⟨y, hy, bind_eq_ok.2 ⟨ys', hys', rfl⟩⟩

theorem mapM_eq_ok {g : α → β} (h : ∀ x ∈ l, f x = .ok (g x)) : l.mapM f = .ok (l.map g) := by
  induction l with
  | nil => rfl
  | cons x l ih =>
      obtain ⟨hx, hl⟩ := List.forall_mem_cons.1 h
      exact mapM_cons_eq_ok.2 ⟨_, _, hx, ih hl, rfl⟩

theorem exists_mapM_eq_ok (h : ∀ x ∈ l, ∃ y, f x = .ok y) : ∃ l', l.mapM f = .ok l' := by
  induction l with
  | nil => exact ⟨[], rfl⟩
  | cons x l ih =>
      obtain ⟨⟨y, hy⟩, hl⟩ := List.forall_mem_cons.1 h
      obtain ⟨ys, hys⟩ := ih hl
      exact ⟨y :: ys, mapM_cons_eq_ok.2 ⟨y, ys, hy, hys, rfl⟩⟩

/-- Where a whole list comes out, each of its members does, and there are as many as before. -/
theorem of_mapM_eq_ok (h : l.mapM f = .ok l') : l'.length = l.length ∧ ∀ x ∈ l, ∃ y, f x = .ok y := by
  induction l generalizing l' with
  | nil =>
      obtain rfl := Except.ok.inj h
      simp
  | cons x l ih =>
      obtain ⟨y, ys, hy, hys, rfl⟩ := mapM_cons_eq_ok.1 h
      obtain ⟨hlength, hall⟩ := ih hys
      refine ⟨congrArg Nat.succ hlength, ?_⟩
      rw [List.forall_mem_cons]
      exact ⟨⟨y, hy⟩, hall⟩

/-- What comes out comes from what goes in. -/
theorem mem_of_mapM_eq_ok (h : l.mapM f = .ok l') (y : β) : y ∈ l' ↔ ∃ x ∈ l, f x = .ok y := by
  induction l generalizing l' with
  | nil =>
      obtain rfl := Except.ok.inj h
      simp
  | cons x l ih =>
      obtain ⟨z, ys, hz, hys, rfl⟩ := mapM_cons_eq_ok.1 h
      rw [List.mem_cons, ih hys]
      simp only [List.mem_cons, exists_eq_or_imp, hz, Except.ok.injEq]
      rw [eq_comm]

end Lists

/-! ## Rows and objects -/

/-- A column at a flush: written where the object's value is not the one that was loaded. -/
def written {α : Type} [DecidableEq α] (loaded value row : α) : α :=
  if value = loaded then row else value

/-- On a row that is as it was loaded, a column takes the object's value. -/
theorem written_of_eq {α : Type} [DecidableEq α] {loaded row : α} (value : α) (h : row = loaded) :
    written loaded value row = value := by
  unfold written
  split
  · next hv => rw [h, hv]
  · rfl

/-! ## Objects and documents -/

/-- A storage key `tenants/{tenant}/accounts/{account}/files/{name}`: its scope and a fresh name. -/
structure StorageKey where
  tenant : UUID
  account : UUID
  name : UUID
  deriving DecidableEq, Repr

/-- A PDF as far as signing looks into it: its pages and its document information. -/
structure Pdf (Page : Type) where
  pages : List Page
  metadata : List (String × String)
  deriving DecidableEq, Repr

/-! ## The host -/

/-- `IdentitySummary`. -/
structure IdentitySummary where
  identifierType : Option String
  issuingCountry : Option String
  maskedDisplay : Option String
  deriving DecidableEq, Repr

/-- `protect_cnpj`: ciphertext, lookup key and masked form. -/
structure ProtectedCnpj where
  encrypted : String
  lookup : String
  masked : String
  deriving DecidableEq, Repr

/-- Why the payment provider refuses a webhook. -/
inductive ProviderRefusal where
  | invalidSignature
  | unavailable (message : String)
  deriving DecidableEq, Repr

/-- The verified event of a webhook, as the provider hands it out. `created` is in seconds. -/
structure ProviderEvent where
  id : String
  type : EventType
  resource : Resource
  created : Option Int
  deriving DecidableEq, Repr

/-- The functions the services call and do not define; `B` is `bytes`. -/
structure Host (B Page : Type) where
  /-- `UUID(text)`, `none` where it raises `ValueError`. -/
  parseUuid : String → Option UUID
  /-- `str(uuid)`. -/
  uuidText : UUID → String
  /-- `uuid5(NAMESPACE_URL, text)`. -/
  uuid5 : String → UUID
  /-- `str.lower`. -/
  lower : String → String
  /-- `str.strip`. -/
  strip : String → String
  /-- `str.encode`. -/
  encode : String → B
  /-- `sha256(..).hexdigest()`. -/
  sha256 : B → String
  /-- `hmac.new(key.encode(), .., "sha256").hexdigest()`. -/
  hmac : String → B → String
  /-- `datetime.isoformat`. -/
  isoformat : Int → String
  /-- `repr` of a float. -/
  floatRepr : Rat → String
  size : B → Nat
  /-- `protect_cnpj`, or what it raises. -/
  protectCnpj : String → Except Failure ProtectedCnpj
  /-- `validate_pdf_upload`: what it raises for the content under a file name. -/
  validatePdf : B → String → Option WorkflowError
  readPdf : B → Option (Pdf Page)
  writePdf : Pdf Page → B
  /-- `_stamp_overlay` merged into a page. -/
  stampPage : Page → Dict → Page
  hasCertificateSignatures : B → Bool

/-- `canonical_json`, before it is encoded. -/
def Host.canonicalJson {B Page : Type} (host : Host B Page) (payload : Json) : String :=
  payload.dumps host.floatRepr

/-- `evidence_sha256`. -/
def Host.evidenceSha256 {B Page : Type} (host : Host B Page) (payload : Dict) : String :=
  host.sha256 (host.encode (host.canonicalJson (.dict payload)))

/-- `AuthContext.user_id` of the request that calls a service, where it is a UUID. -/
abbrev Caller := Option UUID

structure Settings where
  billing : BillingSettings
  evidenceSecret : String
  signingAppUrl : String
  /-- `timestamp_enabled()`. -/
  timestampEnabled : Bool
  /-- Both `SERPROID_CLIENT_ID` and `SERPROID_CLIENT_SECRET` are set. -/
  serproIdConfigured : Bool
  /-- `ENVIRONMENT` is `production` or `prod`. -/
  production : Bool

/-! ## A host to compute with -/

inductive SampleBytes where
  | text (s : String)
  | pdf (p : Pdf String)
  deriving DecidableEq, Repr

def SampleBytes.digest : SampleBytes → String
  | text s => "sha256:" ++ s
  | pdf p =>
      "sha256:pdf:" ++ "|".intercalate p.pages ++ "#" ++
        "|".intercalate (p.metadata.map fun x => x.1 ++ "=" ++ x.2)

/-- A host whose texts are in lower case and whose identifiers are written as numbers. -/
def sampleHost : Host SampleBytes String where
  parseUuid s := (List.range 100).find? fun n => toString n = s
  uuidText := toString
  uuid5 s := s.length
  lower s := s
  strip s := s
  encode := .text
  sha256 := SampleBytes.digest
  hmac key b := "hmac:" ++ key ++ ":" ++ b.digest
  isoformat := toString
  floatRepr x := toString x.num ++ "/" ++ toString x.den
  size b := b.digest.length
  protectCnpj s := .ok ⟨"encrypted:" ++ s, "lookup:" ++ s, "masked:" ++ (s.take 2).toString⟩
  validatePdf _ _ := none
  readPdf
    | .text _ => none
    | .pdf p => some p
  writePdf := .pdf
  stampPage page stamp := page ++ "[" ++ stamp.text "signer_name" ++ "]"
  hasCertificateSignatures _ := false

end Rubrica
