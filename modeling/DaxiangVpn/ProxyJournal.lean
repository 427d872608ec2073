import DaxiangVpn.EffectPrograms
import DaxiangVpn.StrictJson

/-!
# The proxy journal of the desktop client

`proxy_journal.rs` keeps, for each proxy setting of the registry, the value that was found and the
value that was written. `restore` puts the found values back. It refuses before its first write when
it sees a value of another program, and removes the journal only after all settings were read back
twice. Every read, write, notification and removal may fail. A write or removal that fails may have
taken effect.
-/

namespace DaxiangVpn.ProxyJournal

open EffectPrograms StrictJson TransitionRun List Function

abbrev Bytes := List UInt8

/-! ## The journal -/

/-- The settings that a journal covers. -/
def FIELDS : List String := ["ProxyEnable", "ProxyServer", "ProxyOverride", "AutoConfigURL"]

def SCHEMA_VERSION : ℕ := 1

/-- What the user is told to do with a journal that is kept. -/
def MANUAL_RECOVERY : String :=
  "记录已保留。请先手动核对并恢复 Windows 代理设置，再将记录重命名归档，最后重试断开或退出"

/-- The error for a journal that is not used. -/
def invalidJournal (code reason : String) : String :=
  code ++ ": " ++ reason ++ "；" ++ MANUAL_RECOVERY

structure RegistryValue where
  /-- Type of the value, of thirty-two bits. -/
  kind : ℕ
  bytes : Bytes
  deriving DecidableEq

/-- A setting. A value that is missing was absent. -/
structure FieldChange where
  name : String
  original : Option RegistryValue
  written : Option RegistryValue

structure Journal where
  schemaVersion : ℕ
  owner : String
  scope : String
  fields : List FieldChange

/-! ## Reading a journal -/

/-- An unsigned integer of so many bits. -/
def readUint (bits : ℕ) : Json → Option ℕ
  | .integer false n => if n < 2 ^ bits then some n else none
  | _ => none

/-- The members of a record: an object without a member twice or an unknown one, or an array with
one item for each member. In an object a member may be missing. -/
def readRecord (names : List String) : Json → Option (String → Option Json)
  | .object members =>
    let keys := members.toList.map Prod.fst
    if keys.Nodup ∧ ∀ key ∈ keys, key ∈ names then some fun name => members.toList.lookup name
    else none
  | .array items => if items.toList.length = names.length then
      some fun name => (names.zip items.toList).lookup name
    else none
  | _ => none

/-- The content of a value. -/
def readBytes (j : Json) : Option Bytes := do
  let items ← j.items?
  items.mapM fun item => (readUint 8 item).map UInt8.ofNat

def readValue (j : Json) : Option RegistryValue := do
  let member ← readRecord ["kind", "bytes"] j
  let kind ← readUint 32 (← member "kind")
  let bytes ← readBytes (← member "bytes")
  some ⟨kind, bytes⟩

/-- A value that may be null or missing. -/
def readOptional : Option Json → Option (Option RegistryValue)
  | none => some none
  | some .null => some none
  | some j => (readValue j).map some

/-- A setting. -/
def readField (j : Json) : Option FieldChange := do
  let member ← readRecord ["name", "original", "written"] j
  let name ← (← member "name").text?
  let original ← readOptional (member "original")
  let written ← readOptional (member "written")
  some ⟨name, original, written⟩

def readJournal (j : Json) : Option Journal := do
  let member ← readRecord ["schema_version", "owner", "scope", "fields"] j
  let schemaVersion ← readUint 32 (← member "schema_version")
  let owner ← (← member "owner").text?
  let scope ← (← member "scope").text?
  let items ← (← member "fields").items?
  let fields ← items.mapM readField
  some ⟨schemaVersion, owner, scope, fields⟩

/-- A setting has the name of its place, and values of known types. -/
def fieldValid (field : FieldChange) (name : String) : Bool :=
  field.name = name ∧ ∀ value ∈ [field.original, field.written], ∀ raw ∈ value, raw.kind ≤ 11

/-- Read a journal. The text is parsed by `parse`, which keeps the members of an object as they
stand. -/
def decode (parse : Bytes → Option Json) (data : Bytes) : Except String Journal :=
  match parse data with
  | none => .error (invalidJournal "system_proxy_journal_invalid" "代理恢复记录损坏")
  | some value =>
    if value.get "schema_version" = none then
      .error (invalidJournal "system_proxy_journal_legacy" "旧代理备份没有写入归属，无法安全自动恢复")
    else
      match readJournal value with
      | none => .error (invalidJournal "system_proxy_journal_invalid" "代理恢复记录格式无效")
      | some journal =>
        if journal.schemaVersion ≠ SCHEMA_VERSION ∨ journal.owner ≠ "desktop-gui" ∨
            journal.scope ≠ "wininet-hkcu" then
          .error (invalidJournal "system_proxy_journal_incompatible" "代理恢复记录版本或归属不匹配")
        else if journal.fields.length ≠ FIELDS.length ∨
            (journal.fields.zip FIELDS).any (fun p => !fieldValid p.1 p.2) then
          .error (invalidJournal "system_proxy_journal_invalid" "代理恢复记录字段无效")
        else .ok journal

/-- The settings of two lists that agree place by place have the same names. -/
theorem map_name_eq {fields : List FieldChange} {names : List String}
    (hlength : fields.length = names.length)
    (hvalid : ∀ p ∈ fields.zip names, fieldValid p.1 p.2 = true) :
    fields.map FieldChange.name = names := by
  induction fields generalizing names with
  | nil =>
    cases names with
    | nil => rfl
    | cons => cases hlength
  | cons field fields ih =>
    cases names with
    | nil => cases hlength
    | cons name =>
      have hfield := hvalid (field, name) (by simp)
      simp only [fieldValid, decide_eq_true_eq] at hfield
      have hrest := ih (Nat.succ.inj hlength) fun p hp => hvalid p (mem_cons_of_mem _ hp)
      rw [map_cons, hfield.1, hrest]

variable {parse : Bytes → Option Json} {journal : Journal} {data : Bytes} {name : String}

theorem decode_names
    (h : decode parse data = .ok journal) : journal.fields.map FieldChange.name = FIELDS := by
  unfold decode at h
  split at h
  · cases h
  split_ifs at h
  split at h
  · cases h
  split_ifs at h with howner hfields
  cases h
  rw [not_or, not_not] at hfields
  refine map_name_eq hfields.1 fun p hp => ?_
  have hall := hfields.2
  simp only [any_eq_true, not_exists, not_and] at hall
  have hvalid := hall p hp
  simpa using hvalid

theorem decode_unique (h : decode parse data = .ok journal) {a b : FieldChange}
    (ha : a ∈ journal.fields) (hb : b ∈ journal.fields) (hname : a.name = b.name) : a = b := by
  have hnodup : (journal.fields.map FieldChange.name).Nodup := by
    rw [decode_names h]
    decide
  exact inj_on_of_nodup_map hnodup ha hb hname

/-! ## The program -/

/-- What `restore` asks of the registry and of the store. -/
inductive Effect
  | load
  | read (name : String)
  | write (name : String) (value : Option RegistryValue)
  /-- Tell programs that settings changed. -/
  | notify
  | remove

abbrev Answer : Effect → Type
  | .load => Except String (Option Bytes)
  | .read _ => Except String (Option RegistryValue)
  | .write _ _ => Except String Unit
  | .notify => Except String Unit
  | .remove => Except String Unit

abbrev Program := Prog Effect Answer

def load : Program (Except String (Option Bytes)) := perform (R := Answer) .load

def read (name : String) : Program (Except String (Option RegistryValue)) :=
  perform (R := Answer) (.read name)

def write (name : String) (value : Option RegistryValue) : Program (Except String Unit) :=
  perform (R := Answer) (.write name value)

def notify : Program (Except String Unit) := perform (R := Answer) .notify

def remove : Program (Except String Unit) := perform (R := Answer) .remove

/-- The error for a setting that has a value of another program. -/
def conflict (name : String) : String :=
  "system_proxy_ownership_conflict: " ++ name ++
    " 已被其他程序修改；未覆盖新设置，恢复记录已保留。请先核对 Windows 代理设置；若确认保留当前新设置，可将记录重命名归档后重试退出"

def readFailed (name e : String) : String := "system_proxy_read_failed: " ++ name ++ ": " ++ e

/-- Before any write, no setting may have a value of another program. -/
def checkOwned : List FieldChange → Program (Except String Unit)
  | [] => pure (.ok ())
  | field :: rest => do
    match ← read field.name with
    | .error e => pure (.error (readFailed field.name e))
    | .ok current =>
      if current ≠ field.original ∧ current ≠ field.written then pure (.error (conflict field.name))
      else if field.original = field.written ∧ current ≠ field.original then
        pure (.error (conflict field.name))
      else checkOwned rest

/-- Put the found values back. -/
def writeBack : List FieldChange → Program (Except String Unit)
  | [] => pure (.ok ())
  | field :: rest =>
    if field.original = field.written then writeBack rest
    else do
      match ← read field.name with
      | .error e => pure (.error (readFailed field.name e))
      | .ok current =>
        if current = field.original then writeBack rest
        else if current ≠ field.written then pure (.error (conflict field.name))
        else
          match ← write field.name field.original with
          | .error e =>
            pure (.error ("system_proxy_restore_failed: " ++ field.name ++ ": " ++ e ++
              "; 恢复记录已保留，请重试断开或退出"))
          | .ok () =>
            match ← read field.name with
            | .error e => pure (.error (readFailed field.name e))
            | .ok current =>
              if current ≠ field.original then pure (.error (conflict field.name))
              else writeBack rest

/-- Every setting has its found value. -/
def verify : List FieldChange → Program (Except String Unit)
  | [] => pure (.ok ())
  | field :: rest => do
    match ← read field.name with
    | .error e => pure (.error (readFailed field.name e))
    | .ok current => if current ≠ field.original then pure (.error (conflict field.name)) else verify rest

def restoreJournal (journal : Journal) : Program (Except String Unit) := do
  match ← checkOwned journal.fields with
  | .error e => pure (.error e)
  | .ok () =>
    match ← writeBack journal.fields with
    | .error e => pure (.error e)
    | .ok () =>
      match ← verify journal.fields with
      | .error e => pure (.error e)
      | .ok () =>
        match ← notify with
        | .error e =>
          pure (.error ("system_proxy_notify_failed: " ++ e ++ "; 恢复记录已保留，请重试断开或退出"))
        | .ok () =>
          match ← verify journal.fields with
          | .error e => pure (.error e)
          | .ok () =>
            match ← remove with
            | .error e =>
              pure (.error ("system_proxy_journal_remove_failed: " ++ e ++
                "; 设置已恢复，恢复记录已保留，请重试断开或退出"))
            | .ok () => pure (.ok ())

/-- Restore the settings, if there is a journal. -/
def restore (parse : Bytes → Option Json) : Program (Except String Unit) := do
  match ← load with
  | .error e => pure (.error ("system_proxy_journal_read_failed: " ++ e))
  | .ok none => pure (.ok ())
  | .ok (some data) =>
    match decode parse data with
    | .error e => pure (.error e)
    | .ok journal => restoreJournal journal

/-! ## The desktop -/

/-- The registry, the store, and what an attempt did, the last effect first. -/
structure World where
  registry : String → Option RegistryValue
  journal : Option Bytes
  /-- Effects of the attempt with their answers. -/
  trace : List (Σ e, Answer e)

/-- How an effect goes. A write or removal that fails says whether it took effect. -/
abbrev Choice : Effect → Type
  | .load => Option String
  | .read _ => Option String
  | .write _ _ => Option (String × Bool)
  | .notify => Option String
  | .remove => Option (String × Bool)

/-- Whether a write or removal takes effect. -/
def effective : Option (String × Bool) → Bool
  | none => true
  | some (_, b) => b

/-- An answer, or the error that was chosen. -/
def answer {α : Type} (a : α) : Option String → Except String α
  | none => .ok a
  | some e => .error e

def World.note (w : World) (e : Effect) (r : Answer e) : World :=
  { w with trace := ⟨e, r⟩ :: w.trace }

/-- A setting gets a value, if the write takes effect. -/
def World.set (w : World) (name : String) (value : Option RegistryValue) (effect : Bool) : World :=
  { w with registry := cond effect (update w.registry name value) w.registry }

/-- The journal is gone, if the removal takes effect. -/
def World.drop (w : World) (effect : Bool) : World :=
  { w with journal := cond effect none w.journal }

/-- An effect. -/
def handle (w : World) : ∀ e, Choice e → World × Answer e
  | .load, c => (w.note .load (answer w.journal c), answer w.journal c)
  | .read name, c => (w.note (.read name) (answer (w.registry name) c), answer (w.registry name) c)
  | .write name value, c =>
    ((w.set name value (effective c)).note (.write name value)
    (answer () (c.map Prod.fst)), answer () (c.map Prod.fst))
  | .notify, c => (w.note .notify (answer () c), answer () c)
  | .remove, c =>
    ((w.drop (effective c)).note .remove (answer () (c.map Prod.fst)), answer () (c.map Prod.fst))

structure Attempt where
  before : World
  /-- The world after, with what the attempt did. -/
  after : World
  result : Except String Unit

/-- The desktop, and all attempts, the last one first. -/
structure Desktop where
  world : World
  attempts : List Attempt

/-- What happens to a desktop. -/
inductive Event
  /-- An attempt to restore, and how each of its effects goes. -/
  | attempt (choices : ℕ → ∀ e, Choice e)
  /-- Another program changes a setting between two attempts. -/
  | change (name : String) (value : Option RegistryValue)
  /-- A journal is made or taken away between two attempts. -/
  | record (journal : Option Bytes)

def tryRestore (parse : Bytes → Option Json) (w : World) (choices : ℕ → ∀ e, Choice e) : Attempt :=
  let before := { w with trace := [] }
  let outcome := exec handle before choices (restore parse)
  ⟨before, outcome.1, outcome.2⟩

def step (parse : Bytes → Option Json) (d : Desktop) : Event → Desktop
  | .attempt choices =>
    let attempt := tryRestore parse d.world choices
    ⟨attempt.after, attempt :: d.attempts⟩
  | .change name value =>
    { d with world := { d.world with registry := update d.world.registry name value } }
  | .record journal => { d with world := { d.world with journal := journal } }

/-! ## What an attempt may do -/

/-- Each setting has its found value or its written value. -/
def Owned (fields : List FieldChange) (registry : String → Option RegistryValue) : Prop :=
  ∀ field ∈ fields, registry field.name = field.original ∨ registry field.name = field.written

def covered (parse : Bytes → Option Json) (w : World) : List FieldChange :=
  match w.journal with
  | none => []
  | some data =>
    match decode parse data with
    | .error _ => []
    | .ok journal => journal.fields

theorem covered_eq {w : World} (hdata : w.journal = some data)
    (hjournal : decode parse data = .ok journal) : covered parse w = journal.fields := by
  simp only [covered, hdata, hjournal]

theorem covered_cases (parse : Bytes → Option Json) (w : World) : covered parse w = [] ∨
    ∃ data journal, w.journal = some data ∧ decode parse data = .ok journal ∧
    covered parse w = journal.fields := by
  unfold covered
  cases w.journal with
  | none => exact .inl rfl
  | some data =>
    dsimp only
    cases hdecode : decode parse data with
    | error => exact .inl rfl
    | ok journal => exact .inr ⟨data, journal, rfl, hdecode, rfl⟩

theorem covered_unique {w : World} {a b : FieldChange} (ha : a ∈ covered parse w)
    (hb : b ∈ covered parse w) (hname : a.name = b.name) : a = b := by
  rcases covered_cases parse w with hnone | ⟨data, journal, -, hjournal, hfields⟩
  · rw [hnone] at ha
    cases ha
  · rw [hfields] at ha hb
    exact decode_unique hjournal ha hb hname

/-- The world of an attempt that began in `b`. A setting changes only from its written value to its
found value, and only when no setting had a value of another program. -/
structure Restoring (fields : List FieldChange) (b w : World) : Prop where
  registry : ∀ name, w.registry name = b.registry name ∨ ∃ field ∈ fields,
    field.name = name ∧ w.registry name = field.original ∧ b.registry name = field.written
  reads : ∀ name v, ⟨.read name, .ok v⟩ ∈ w.trace → v = b.registry name ∨ ∃ field ∈ fields,
    field.name = name ∧ v = field.original
  writes : Owned fields b.registry ∨ w.registry = b.registry ∧ ∀ name value r,
    ⟨.write name value, r⟩ ∉ w.trace

/-- When an effect may be performed in an attempt that began in `b`. -/
def Pre (fields : List FieldChange) (b w : World) : Effect → Prop
  | .write name value => Owned fields b.registry ∧ ∃ field ∈ fields,
    field.name = name ∧ field.original = value ∧ w.registry name = field.written
  | _ => True

section

variable {parse : Bytes → Option Json} {fields : List FieldChange} {b w : World}

theorem Restoring.note (h : Restoring fields b w) {w' : World}
    (hregistry : w'.registry = w.registry) {e : Effect} {r : Answer e}
    (htrace : w'.trace = ⟨e, r⟩ :: w.trace) (hwrite : ∀ name value, e ≠ .write name value)
    (hread : ∀ name v, (⟨e, r⟩ : Σ e, Answer e) = ⟨.read name, .ok v⟩ → v = w.registry name) :
    Restoring fields b w' := by
  refine ⟨?_, fun name v hv => ?_, ?_⟩
  · rw [hregistry]
    exact h.registry
  · rw [htrace] at hv
    rcases mem_cons.mp hv with heq | hv
    · rw [hread name v heq.symm]
      rcases h.registry name with hsame | ⟨field, hfield, hname, hvalue, -⟩
      · exact .inl hsame
      · exact .inr ⟨field, hfield, hname, hvalue⟩
    · exact h.reads name v hv
  · rw [hregistry, htrace]
    rcases h.writes with howned | ⟨hsame, hnone⟩
    · exact .inl howned
    · refine .inr ⟨hsame, fun name value r' hmem => ?_⟩
      rcases mem_cons.mp hmem with heq | hmem
      · exact hwrite name value (congrArg Sigma.fst heq).symm
      · exact hnone name value r' hmem

theorem Restoring.write (h : Restoring fields b w)
    (hunique : ∀ a ∈ fields, ∀ c ∈ fields, a.name = c.name → a = c) {value : Option RegistryValue}
    (hpre : Pre fields b w (.write name value)) (c : Choice (.write name value)) :
    Restoring fields b (handle w (.write name value) c).1 := by
  obtain ⟨howned, field, hfield, hname, hvalue, hcurrent⟩ := hpre
  have hregistry : (ProxyJournal.handle w (.write name value) c).1.registry =
      cond (effective c) (update w.registry name value) w.registry := rfl
  refine ⟨fun n => ?_, fun n v hv => ?_, .inl howned⟩
  · rw [hregistry]
    cases effective c with
    | false => exact h.registry n
    | true =>
      rw [cond_true]
      by_cases hn : n = name
      · subst hn
        rw [update_self]
        refine .inr ⟨field, hfield, hname, hvalue.symm, ?_⟩
        rcases h.registry n with hsame | ⟨other, hother, hothername, -, hwritten⟩
        · exact hsame.symm.trans hcurrent
        · rw [hunique field hfield other hother (hname.trans hothername.symm)]
          exact hwritten
      · rw [update_of_ne hn]
        exact h.registry n
  · rcases mem_cons.mp hv with heq | hv
    · cases congrArg Sigma.fst heq
    · exact h.reads n v hv

theorem answer_ok {α : Type} {a v : α} {c : Option String} (h : answer a c = .ok v) : v = a := by
  cases c with
  | none => exact (Except.ok.inj h).symm
  | some => cases h

theorem Restoring.handle (h : Restoring fields b w)
    (hunique : ∀ a ∈ fields, ∀ c ∈ fields, a.name = c.name → a = c) (e : Effect) (c : Choice e)
    (hpre : Pre fields b w e) : Restoring fields b (handle w e c).1 := by
  cases e with
  | load | notify => exact h.note rfl rfl nofun fun name v heq => by cases congrArg Sigma.fst heq
  | write => exact h.write hunique hpre c
  | read name =>
    refine h.note rfl rfl nofun fun n v heq => ?_
    injection heq with heffect hanswer
    injection heffect with hname
    subst hname
    exact answer_ok hanswer
  | remove => exact h.note rfl rfl nofun fun name v heq => by cases congrArg Sigma.fst heq

/-! ## What the loops establish -/

/-- A program meets its condition whatever effects answer. -/
abbrev Meets (fields : List FieldChange) (b : World) {α : Type}
    (post : World → α → Prop) (w : World) (p : Program α) : Prop :=
  p.Meets (Shows ProxyJournal.handle) (Pre fields b) post w

/-- Settings and journal are as they were. -/
structure Quiet (w w' : World) : Prop where
  registry : w'.registry = w.registry
  journal : w'.journal = w.journal

theorem Quiet.trans {w w' w'' : World} (h : Quiet w w') (h' : Quiet w' w'') : Quiet w w'' :=
  ⟨h'.registry.trans h.registry, h'.journal.trans h.journal⟩

/-- A read answers an error or the value, and changes neither settings nor journal. -/
theorem meets_read {β : Type} {post : World → β → Prop}
    {f : Except String (Option RegistryValue) → Program β}
    (herror : ∀ e w', Quiet w w' → Meets fields b post w' (f (.error e)))
    (hok : ∀ w', Quiet w w' → Meets fields b post w' (f (.ok (w.registry name)))) :
    Meets fields b post w (read name >>= f) := by
  refine meets_perform trivial fun r w' hr => ?_
  obtain ⟨c, hc⟩ := hr
  cases hc
  cases c with
  | none => exact hok _ ⟨rfl, rfl⟩
  | some e => exact herror e _ ⟨rfl, rfl⟩

theorem meets_write {β : Type} {post : World → β → Prop} {value : Option RegistryValue}
    {f : Except String Unit → Program β} (hpre : Pre fields b w (.write name value))
    (hnext : ∀ r w', w'.journal = w.journal → Meets fields b post w' (f r)) :
    Meets fields b post w (write name value >>= f) := by
  refine meets_perform hpre fun r w' hr => ?_
  obtain ⟨c, hc⟩ := hr
  cases hc
  exact hnext _ _ rfl

/-- The first loop only reads. When it ends well, no setting has a value of another program. -/
theorem checkOwned_meets (fields : List FieldChange) (b : World)
    (checked : List FieldChange) (w : World) :
    Meets fields b (fun w' r => Quiet w w' ∧ (r = .ok () → Owned checked w.registry)) w
      (checkOwned checked) := by
  suffices h : ∀ w', Quiet w w' →
      Meets fields b (fun w' r => Quiet w w' ∧ (r = .ok () → Owned checked w.registry)) w'
        (checkOwned checked) from
    h w ⟨rfl, rfl⟩
  induction checked with
  | nil => exact fun w' hw' => ⟨hw', nofun⟩
  | cons field rest ih =>
    intro w' hw'
    refine meets_read (fun e w₁ hread => ⟨hw'.trans hread, nofun⟩) fun w₁ hread => ?_
    have hquiet := hw'.trans hread
    refine meets_ite (fun _ => ⟨hquiet, nofun⟩) fun hforeign => ?_
    refine meets_ite (fun _ => ⟨hquiet, nofun⟩) fun _ => ?_
    have hfield : w.registry field.name = field.original ∨
      w.registry field.name = field.written := by
      rw [hw'.registry] at hforeign
      by_contra hnot
      exact hforeign (not_or.mp hnot)
    exact meets_mono (ih w₁ hquiet) fun w₂ r hr =>
      ⟨hr.1, fun hok => forall_mem_cons.mpr ⟨hfield, hr.2 hok⟩⟩

/-- The second loop writes found values over written values, and keeps the journal. -/
theorem writeBack_meets {fields : List FieldChange} {b : World} (howned : Owned fields b.registry)
    {restored : List FieldChange} (hrestored : ∀ field ∈ restored, field ∈ fields) (w : World) :
    Meets fields b (fun w' _ => w'.journal = w.journal) w (writeBack restored) := by
  suffices h : ∀ w', w'.journal = w.journal →
      Meets fields b (fun w' _ => w'.journal = w.journal) w' (writeBack restored) from h w rfl
  induction restored with
  | nil => exact fun w' hw' => hw'
  | cons field rest ih =>
    intro w' hw'
    have hrest := ih fun field' h => hrestored field' (mem_cons_of_mem field h)
    refine meets_ite (fun _ => hrest w' hw') fun _ => ?_
    refine meets_read (fun e w₁ hread => hread.journal.trans hw') fun w₁ hread => ?_
    have hw₁ : w₁.journal = w.journal := hread.journal.trans hw'
    refine meets_ite (fun _ => hrest w₁ hw₁) fun _ => ?_
    refine meets_ite (fun _ => hw₁) fun hwritten => ?_
    have hpre : Pre fields b w₁ (.write field.name field.original) := by
      refine ⟨howned, field, hrestored field mem_cons_self, rfl, rfl, ?_⟩
      rw [hread.registry]
      exact not_not.mp hwritten
    refine meets_write hpre fun r w₂ hjournal₂ => ?_
    have hw₂ : w₂.journal = w.journal := hjournal₂.trans hw₁
    cases r with
    | error => exact hw₂
    | ok =>
      refine meets_read (fun e w₃ hread => hread.journal.trans hw₂) fun w₃ hread => ?_
      have hw₃ : w₃.journal = w.journal := hread.journal.trans hw₂
      exact meets_ite (fun _ => hw₃) fun _ => hrest w₃ hw₃

/-- The last loops only read. When one ends well, every setting has its found value. -/
theorem verify_meets (fields : List FieldChange) (b : World) (verified : List FieldChange) (w : World) :
    Meets fields b (fun w' r => Quiet w w' ∧ (r = .ok () → ∀ field ∈ verified, w.registry field.name = field.original))
      w (verify verified) := by
  suffices h : ∀ w', Quiet w w' → Meets fields b (fun w' r => Quiet w w' ∧
      (r = .ok () → ∀ field ∈ verified, w.registry field.name = field.original)) w' (verify verified) from
    h w ⟨rfl, rfl⟩
  induction verified with
  | nil => exact fun w' hw' => ⟨hw', nofun⟩
  | cons field rest ih =>
    intro w' hw'
    refine meets_read (fun e w₁ hread => ⟨hw'.trans hread, nofun⟩) fun w₁ hread => ?_
    have hquiet := hw'.trans hread
    refine meets_ite (fun _ => ⟨hquiet, nofun⟩) fun hsame => ?_
    rw [not_not, hw'.registry] at hsame
    exact meets_mono (ih w₁ hquiet) fun w₂ r hr =>
      ⟨hr.1, fun hok => forall_mem_cons.mpr ⟨hsame, hr.2 hok⟩⟩

/-- How an attempt ends: after a success every setting has its found value and the journal is gone;
after a failure the journal is there, unless the last effect was a removal that failed. -/
def Ended (fields : List FieldChange) (b w : World) : Except String Unit → Prop
  | .ok () => (∀ field ∈ fields, w.registry field.name = field.original) ∧ w.journal = none
  | .error _ => w.journal = b.journal ∨ ∃ e, w.trace.head? = some ⟨.remove, .error e⟩

theorem restoreJournal_meets {b : World} (hw : Quiet b w) :
    Meets journal.fields b (Ended journal.fields b) w (restoreJournal journal) := by
  refine meets_bind (checkOwned_meets journal.fields b journal.fields w) fun w₁ r hr => ?_
  obtain ⟨hquiet₁, howned⟩ := hr
  cases r with
  | error => exact .inl (hquiet₁.journal.trans hw.journal)
  | ok u =>
    have howned := howned rfl
    rw [hw.registry] at howned
    refine meets_bind (writeBack_meets howned (fun field h => h) w₁) fun w₂ r hjournal => ?_
    have hw₂ : w₂.journal = b.journal := hjournal.trans (hquiet₁.journal.trans hw.journal)
    cases r with
    | error => exact .inl hw₂
    | ok u =>
      refine meets_bind (verify_meets journal.fields b journal.fields w₂) fun w₃ r hr => ?_
      have hw₃ : w₃.journal = b.journal := hr.1.journal.trans hw₂
      cases r with
      | error => exact .inl hw₃
      | ok u =>
        refine meets_perform trivial fun r w₄ hr => ?_
        obtain ⟨c, hc⟩ := hr
        cases hc
        cases c with
        | some => exact .inl hw₃
        | none =>
          refine meets_bind (verify_meets journal.fields b journal.fields _) fun w₅ r hr => ?_
          obtain ⟨hquiet₅, horiginal⟩ := hr
          have hw₅ : w₅.journal = b.journal := hquiet₅.journal.trans hw₃
          cases r with
          | error => exact .inl hw₅
          | ok =>
            refine meets_perform trivial fun r w₆ hr => ?_
            obtain ⟨c, hc⟩ := hr
            cases hc
            cases c with
            | some failure => exact .inr ⟨failure.1, rfl⟩
            | none =>
              refine ⟨fun field hfield => ?_, rfl⟩
              exact (congrFun hquiet₅.registry field.name).trans (horiginal rfl field hfield)

/-! ## Attempts -/

structure Attempt.Safe (parse : Bytes → Option Json) (a : Attempt) : Prop where
  /-- A success with a journal restores every setting and removes the journal. -/
  restored : ∀ data, a.before.journal = some data → a.result = .ok () →
    ∃ journal, decode parse data = .ok journal ∧
    (∀ field ∈ journal.fields, a.after.registry field.name = field.original) ∧
    a.after.journal = none
  /-- A failure keeps the journal, unless the removal itself failed. -/
  kept : ∀ e, a.result = .error e →
    a.after.journal = a.before.journal ∨ ∃ e, a.after.trace.head? = some ⟨.remove, .error e⟩
  /-- A setting of another program, also when it is only seen by one read, stops every write. -/
  foreign : ∀ data journal, a.before.journal = some data → decode parse data = .ok journal →
    ∀ field ∈ journal.fields, ∀ v,
    (a.before.registry field.name = v ∨ ⟨.read field.name, .ok v⟩ ∈ a.after.trace) →
      v ≠ field.original → v ≠ field.written →
      a.after.registry = a.before.registry ∧ ∀ name value r, ⟨.write name value, r⟩ ∉ a.after.trace
  /-- Only settings of the journal change, from the written to the found value. -/
  changes : ∀ name, a.after.registry name = a.before.registry name ∨
    ∃ field ∈ covered parse a.before, field.name = name ∧ a.after.registry name = field.original ∧
    a.before.registry name = field.written
  /-- Without a journal, or with one that is refused, no setting is even read. -/
  untouched : covered parse a.before = [] → a.after.registry = a.before.registry ∧
    ∀ x ∈ a.after.trace, x.1 = .load

theorem covered_ne_nil (hdata : b.journal = some data)
    (hjournal : decode parse data = .ok journal) : covered parse b ≠ [] := by
  intro hnil
  have hnames := decode_names hjournal
  rw [← covered_eq hdata hjournal, hnil] at hnames
  cases hnames

theorem restore_meets (parse : Bytes → Option Json) (htrace : b.trace = []) :
    Meets (covered parse b) b (fun w r => Ended (covered parse b) b w r ∧
      (∀ data, b.journal = some data → r = .ok () → ∃ journal, decode parse data = .ok journal) ∧
      (covered parse b = [] → ∀ x ∈ w.trace, x.1 = .load)) b (restore parse) := by
  refine meets_perform trivial fun r w hr => ?_
  obtain ⟨c, hc⟩ := hr
  cases hc
  have hload : ∀ r, ∀ x ∈ (b.note .load r).trace, x.1 = .load := by
    intro r x hx
    rcases mem_cons.mp hx with rfl | hx
    · rfl
    · rw [htrace] at hx
      cases hx
  cases c with
  | some => exact ⟨.inl rfl, nofun, fun _ => hload _⟩
  | none =>
    cases hjournal : b.journal with
    | none =>
      have hnone : covered parse b = [] := by simp only [covered, hjournal]
      rw [hnone]
      rw [answer]
      exact ⟨⟨nofun, hjournal⟩, nofun, fun _ => hload _⟩
    | some data =>
      rw [answer]
      dsimp only
      cases hdecode : decode parse data with
      | error => exact ⟨.inl rfl, nofun, fun _ => hload _⟩
      | ok journal =>
        have hfields := covered_eq hjournal hdecode
        have hmeets : Meets journal.fields b (Ended journal.fields b)
          (b.note .load (.ok (some data)))
            (restoreJournal journal) := restoreJournal_meets ⟨rfl, rfl⟩
        rw [← hfields] at hmeets
        refine meets_mono hmeets fun w r hr => ⟨hr, fun data' hdata' _ => ?_, fun hnil => ?_⟩
        · cases hdata'
          exact ⟨journal, hdecode⟩
        · exact absurd hnil (covered_ne_nil hjournal hdecode)

theorem Restoring.foreign (h : Restoring fields b w)
    (hunique : ∀ a ∈ fields, ∀ c ∈ fields, a.name = c.name → a = c) {field : FieldChange}
    (hfield : field ∈ fields) {v : Option RegistryValue}
    (hv : b.registry field.name = v ∨ ⟨.read field.name, .ok v⟩ ∈ w.trace)
    (horiginal : v ≠ field.original) (hwritten : v ≠ field.written) :
    w.registry = b.registry ∧ ∀ name value r, ⟨.write name value, r⟩ ∉ w.trace := by
  have hbefore : b.registry field.name = v := by
    rcases hv with hv | hread
    · exact hv
    · rcases h.reads field.name v hread with hsame | ⟨other, hother, hname, hvalue⟩
      · exact hsame.symm
      · rw [hunique other hother field hfield hname] at hvalue
        exact absurd hvalue horiginal
  rcases h.writes with howned | hnone
  · rcases howned field hfield with hsame | hsame
    · exact absurd (hbefore.symm.trans hsame) horiginal
    · exact absurd (hbefore.symm.trans hsame) hwritten
  · exact hnone

theorem tryRestore_safe (parse : Bytes → Option Json) (w : World) (choices : ℕ → ∀ e, Choice e) :
    (tryRestore parse w choices).Safe parse := by
  have hstart : Restoring (covered parse { w with trace := [] }) { w with trace := [] }
    { w with trace := [] } :=
    ⟨fun _ => .inl rfl, nofun, .inr ⟨rfl, nofun⟩⟩
  obtain ⟨hinv, hended, hdecoded, hload⟩ := exec_meets
    (fun w' e c h hpre => h.handle (fun a ha c hc => covered_unique ha hc) e c hpre)
      (restore_meets parse rfl)
    hstart choices
  refine ⟨fun data hdata hok => ?_, fun e he => ?_,
    fun data journal hdata hjournal field hfield v hv => ?_, hinv.registry, fun hnil =>
      ⟨funext fun name => ?_, hload hnil⟩⟩
  · obtain ⟨journal, hjournal⟩ := hdecoded data hdata hok
    have hresult : (exec ProxyJournal.handle { w with trace := [] } choices (restore parse)).2 =
      .ok () := hok
    have hfields : covered parse { w with trace := [] } = journal.fields :=
      covered_eq hdata hjournal
    rw [hresult, hfields] at hended
    exact ⟨journal, hjournal, hended⟩
  · have hresult : (exec ProxyJournal.handle { w with trace := [] } choices (restore parse)).2 =
      .error e := he
    rw [hresult] at hended
    exact hended
  · rw [← covered_eq hdata hjournal] at hfield
    exact hinv.foreign (fun a ha c hc => covered_unique ha hc) hfield hv
  · rcases hinv.registry name with hsame | ⟨field, hfield, -⟩
    · exact hsame
    · have hnil' : covered parse { w with trace := [] } = [] := hnil
      rw [hnil'] at hfield
      cases hfield

/-- Whatever other programs do between attempts, whatever journals appear, and whatever effects
fail: every attempt is safe. -/
theorem run_restore_safe (parse : Bytes → Option Json) (w : World) (events : List Event) :
    ∀ attempt ∈ (run (step parse) ⟨w, []⟩ events).attempts, attempt.Safe parse := by
  have hstep : ∀ (d : Desktop) (event : Event),
    (∀ attempt ∈ d.attempts, attempt.Safe parse) → True →
      ∀ attempt ∈ (step parse d event).attempts, attempt.Safe parse := by
    intro d event hd _
    cases event with
    | attempt choices => exact forall_mem_cons.mpr ⟨tryRestore_safe parse d.world choices, hd⟩
    | change => exact hd
    | record => exact hd
  exact run_invariant (fun d : Desktop => ∀ attempt ∈ d.attempts, attempt.Safe parse) hstep
    nofun (along_of_forall (fun _ _ => trivial) _ events)

end

/-- A registry string: UTF-16 with a final zero. -/
def sampleString (v : String) : RegistryValue :=
  ⟨1, (HexTexts.textBytes v ++ [0]).flatMap fun b => [b, 0]⟩

def sampleValue : Option RegistryValue → Json
  | none => .null
  | some v => obj [("kind", ofNat v.kind),
      ("bytes", .array (v.bytes.foldr (fun b rest => .cons (ofNat b.toNat) rest) .nil))]

/-- A setting of the sample journal. -/
def sampleField (name : String) (original written : Option RegistryValue) : Json :=
  obj [("name", .string name), ("original", sampleValue original), ("written", sampleValue written)]

/-- The journal of a proxy that was switched on; the override was absent before. -/
def sampleJournal : Json :=
  obj [("schema_version", ofNat 1), ("owner", .string "desktop-gui"),
  ("scope", .string "wininet-hkcu"),
    ("fields",
    .array (.cons (sampleField "ProxyEnable" (some ⟨4, [0, 0, 0, 0]⟩) (some ⟨4, [1, 0, 0, 0]⟩))
      (.cons (sampleField "ProxyServer" (some (sampleString "proxy:80"))
        (some (sampleString "localhost:7890")))
      (.cons (sampleField "ProxyOverride" none (some (sampleString "localhost")))
      (.cons (sampleField "AutoConfigURL" (some (sampleString "http://pac")) none) .nil)))))]

def sampleParse (raw : Bytes) : Option Json :=
  if raw = sampleJournal.bytes then some sampleJournal else none

/-- A world with the text of the sample journal, where all settings but the override still have
their written values. -/
def sampleWorld : World where
  registry name :=
    [("ProxyEnable", ⟨4, [1, 0, 0, 0]⟩), ("ProxyServer", sampleString "localhost:7890")].lookup name
  journal := some sampleJournal.bytes
  trace := []

/-- Nothing fails. -/
def sampleChoices (_ : ℕ) : ∀ e, Choice e
  | .load => none
  | .read _ => none
  | .write _ _ => none
  | .notify => none
  | .remove => none

/-- An attempt on the sample world succeeds, and is safe. -/
theorem sampleWorld_restore_safe :
    (tryRestore sampleParse sampleWorld sampleChoices).result = .ok () ∧
      (tryRestore sampleParse sampleWorld sampleChoices).Safe sampleParse :=
  ⟨by decide +kernel, run_restore_safe sampleParse sampleWorld [.attempt sampleChoices] _ mem_cons_self⟩

end DaxiangVpn.ProxyJournal
