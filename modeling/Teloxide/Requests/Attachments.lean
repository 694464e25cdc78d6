import Mathlib
import Teloxide.Requests.Multipart

/-!
# Multipart forms

`to_form` and `to_form_ref` (`crates/teloxide-core/src/serde_multipart/mod.rs`)
serialize the payload, which fills the cells of the attachment ids, and then
collect its files. A file that is to be uploaded is written to the JSON as a
reference to a part of the form.

`attachments_agree`: the parts are the files that the JSON refers to, each as
often as it occurs there. Names of parts come from two places. A cell that is
empty gets a fresh id, and a file that was sent before keeps the id it has, as
does every clone taken from it since. So the names are distinct unless two files
of the payload have an id in common before it is serialized.
-/
namespace Teloxide.Types

namespace InputFile

/-- mirrors input_file.rs:198-213 -/
def attachOrValue (file : InputFile) : String :=
  match file.inner with
  | .url url => url
  | .fileId id => id
  | _ => "attach://" ++ file.id.getD ""

/-- mirrors input_file.rs:253-286 -/
def intoPart (file : InputFile) : Option InputFile :=
  match file.inner with
  | .url _ | .fileId _ => none
  | _ => some file

/-- The id under which a file that is to be uploaded goes, where it has one. -/
def attachment (file : InputFile) : Option String := if file.needsAttach then file.id else none

variable {file : InputFile}

theorem intoPart_of_needsAttach (h : file.needsAttach) : file.intoPart = some file := by
  obtain ⟨id, fileName, inner⟩ := file
  cases inner <;> simp_all [needsAttach, sourceKind, intoPart]

theorem attachOrValue_of_needsAttach (h : file.needsAttach) : file.attachOrValue = "attach://" ++ file.id.getD "" := by
  obtain ⟨id, fileName, inner⟩ := file
  cases inner <;> simp_all [needsAttach, sourceKind, attachOrValue]

/-- Its id can be read off the text of a file. -/
theorem attachOrValue_eq_iff {name : String} (h : file.needsAttach) (hid : file.id.isSome) :
    file.attachOrValue = "attach://" ++ name ↔ file.attachment = some name := by
  obtain ⟨id, hid⟩ := Option.isSome_iff_exists.mp hid
  simp [attachOrValue_of_needsAttach h, attachment, h, hid]

end InputFile

/-! ## Payloads -/

/-- A payload by what it holds: `SendRichMessage`, `EditMessageText`;
`EditMessageMedia`; `SendMediaGroup`; the results of `AnswerInlineQuery`. -/
inductive Payload where
  | richMessage (message : InputRichMessage)
  | media (media : InputMedia)
  | mediaGroup (media : List InputMedia)
  | richMessages (messages : List InputRichMessage)

namespace Payload

def toJson : Payload → Json
  | .richMessage message => message.toJson
  | .media m => m.toJson
  | .mediaGroup ms => .arr (ms.map (·.toJson))
  | .richMessages messages => .arr (messages.map (·.toJson))

def fill (fresh : Nat → String) (payload : Payload) (n : Nat) : Payload × Nat :=
  match payload with
  | .richMessage message => (message.fill fresh n).map .richMessage id
  | .media m => (m.fill fresh n).map .media id
  | .mediaGroup ms => (fillSeq InputMedia.fill fresh ms n).map .mediaGroup id
  | .richMessages messages => (fillSeq InputRichMessage.fill fresh messages n).map .richMessages id

/-- mirrors multipart_payload.rs:25-43, local_macros.rs:395-399 -/
def copyFiles : Payload → List InputFile
  | .richMessage message => message.copyInto
  | .media m => m.files
  | .mediaGroup ms => ms.flatMap (·.files)
  | .richMessages messages => messages.flatMap (·.copyInto)

/-- mirrors multipart_payload.rs:25-43, local_macros.rs:401-405 -/
def moveFiles : Payload → List InputFile × Payload
  | .richMessage message => message.moveInto.map id .richMessage
  | .media m => m.moveInto.map id .media
  | .mediaGroup ms => (moveSeq InputMedia.moveInto ms).map id .mediaGroup
  | .richMessages messages => (moveSeq InputRichMessage.moveInto messages).map id .richMessages

end Payload

theorem InputMedia.files_eq (media : InputMedia) : media.files = media.copyInto := by
  cases media <;> rfl

/-! ## What the walks agree on -/

section Sequences

variable {T : Type} {files : T → List InputFile} {fill : (Nat → String) → T → Nat → T × Nat}
  {moveInto : T → List InputFile × T}

theorem moveSeq_files (h : ∀ t, (moveInto t).1 = files t) (l : List T) :
    (moveSeq moveInto l).1 = l.flatMap files := by
  induction l with
  | nil => rfl
  | cons t ts ih => rw [moveSeq, h, ih, List.flatMap_cons]

theorem fillSeq_files {fresh : Nat → String}
    (h : ∀ t n, fillAll fresh (files t) n = (files (fill fresh t n).1, (fill fresh t n).2)) (l : List T) (n : Nat) :
    fillAll fresh (l.flatMap files) n = ((fillSeq fill fresh l n).1.flatMap files, (fillSeq fill fresh l n).2) := by
  induction l generalizing n with
  | nil => rfl
  | cons t ts ih => simp only [List.flatMap_cons, fillAll_append, h, ih, fillSeq]

theorem filesOfItems_map (toJson : T → Json) (l : List T) :
    Json.filesOfItems (l.map toJson) = l.flatMap fun t => (toJson t).files := by
  induction l with
  | nil => rfl
  | cons t ts ih => simp only [List.map_cons, Json.filesOfItems, ih, List.flatMap_cons]

end Sequences

namespace InputRichMessage

variable (message : InputRichMessage)

/-- The files inside the blocks are serialized first and visited last. -/
theorem copyInto_perm : message.copyInto.Perm message.toJson.files := by
  rw [toJson_files]
  exact List.perm_append_comm

theorem fill_toJson (fresh : Nat → String) (n : Nat) : fillAll fresh message.toJson.files n =
    ((message.fill fresh n).1.toJson.files, (message.fill fresh n).2) := by
  rw [toJson_files, toJson_files, fill_files]

end InputRichMessage

namespace Payload

variable (payload : Payload)

theorem moveFiles_eq : payload.moveFiles.1 = payload.copyFiles := by
  cases payload with
  | richMessage message => exact message.moveInto_files
  | media m => exact m.walks.moveInto.trans m.files_eq.symm
  | mediaGroup ms => exact moveSeq_files (fun m => m.walks.moveInto.trans m.files_eq.symm) ms
  | richMessages messages => exact moveSeq_files InputRichMessage.moveInto_files messages

theorem copyFiles_perm : payload.copyFiles.Perm payload.toJson.files := by
  cases payload with
  | richMessage message => exact message.copyInto_perm
  | media m => exact .of_eq (m.files_eq.trans m.walks.json.symm)
  | mediaGroup ms =>
    rw [toJson, Json.files, filesOfItems_map]
    exact .of_eq (List.flatMap_congr fun m _ => m.files_eq.trans m.walks.json.symm)
  | richMessages messages =>
    rw [toJson, Json.files, filesOfItems_map]
    exact .flatMap_left _ fun m _ => m.copyInto_perm

theorem fill_toJson (fresh : Nat → String) (n : Nat) : fillAll fresh payload.toJson.files n =
    ((payload.fill fresh n).1.toJson.files, (payload.fill fresh n).2) := by
  have hmedia (m : InputMedia) (n : Nat) : fillAll fresh m.toJson.files n =
      ((m.fill fresh n).1.toJson.files, (m.fill fresh n).2) := by
    have hjson (m : InputMedia) : m.toJson.files = m.copyInto := m.walks.json
    rw [hjson, hjson, m.walks.fill]
  cases payload with
  | richMessage message => exact message.fill_toJson fresh n
  | media m => exact hmedia m n
  | mediaGroup ms =>
    simp only [toJson, fill, Json.files, filesOfItems_map, Prod.map]
    exact fillSeq_files hmedia ms n
  | richMessages messages =>
    simp only [toJson, fill, Json.files, filesOfItems_map, Prod.map]
    exact fillSeq_files (fun m => m.fill_toJson fresh) messages n

end Payload

/-! ## Attachment ids -/

section Fresh

variable {fresh : Nat → String}

theorem fill_of_needsAttach {file : InputFile} {n : Nat} (h : (file.fill fresh n).1.needsAttach) :
    (file.fill fresh n).1.id.isSome := by
  unfold InputFile.fill at h ⊢
  split_ifs with hf
  · rfl
  · rw [if_neg hf] at h
    rw [h, Bool.true_and, Option.isNone_iff_eq_none] at hf
    exact Option.isSome_iff_ne_none.mpr hf

theorem fillAll_id {l : List InputFile} {n : Nat} {file : InputFile} (hf : file ∈ (fillAll fresh l n).1)
    (h : file.needsAttach) : file.id.isSome := by
  induction l generalizing n with
  | nil => cases hf
  | cons f l ih =>
    obtain rfl | hf := List.mem_cons.mp hf
    · exact fill_of_needsAttach h
    · exact ih hf

/-- The ids of the files to be uploaded. -/
def ids (l : List InputFile) : List String := l.filterMap (·.attachment)

variable (fresh) in
/-- What filling does to a cell, as seen in the list of the ids. -/
theorem ids_fillAll_cons (file : InputFile) (l : List InputFile) (n : Nat) :
    (∃ id, ids (file :: l) = id :: ids l ∧ ids (fillAll fresh (file :: l) n).1 = id :: ids (fillAll fresh l n).1) ∨
    (ids (file :: l) = ids l ∧ ids (fillAll fresh (file :: l) n).1 = fresh n :: ids (fillAll fresh l (n + 1)).1) ∨
    (ids (file :: l) = ids l ∧ ids (fillAll fresh (file :: l) n).1 = ids (fillAll fresh l n).1) := by
  obtain ⟨id, fileName, inner⟩ := file
  cases hneeds : InputFile.needsAttach ⟨id, fileName, inner⟩ with
  | false => exact .inr (.inr (by simp [ids, fillAll, InputFile.fill, InputFile.attachment, hneeds]))
  | true =>
    have hfresh : InputFile.needsAttach ⟨some (fresh n), fileName, inner⟩ = true := hneeds
    cases id with
    | none => exact .inr (.inl (by simp [ids, fillAll, InputFile.fill, InputFile.attachment, hneeds, hfresh]))
    | some id => exact .inl ⟨id, by simp [ids, fillAll, InputFile.fill, InputFile.attachment, hneeds]⟩

theorem mem_ids_fillAll {l : List InputFile} {n : Nat} {name : String} (h : name ∈ ids (fillAll fresh l n).1) :
    name ∈ ids l ∨ ∃ k, n ≤ k ∧ name = fresh k := by
  induction l generalizing n with
  | nil => cases h
  | cons f l ih =>
    obtain ⟨id, hl, hfilled⟩ | ⟨hl, hfilled⟩ | ⟨hl, hfilled⟩ := ids_fillAll_cons fresh f l n
    all_goals rw [hfilled] at h; rw [hl]
    · obtain rfl | h := List.mem_cons.mp h
      · exact .inl List.mem_cons_self
      · exact (ih h).imp_left (List.mem_cons_of_mem _)
    · obtain rfl | h := List.mem_cons.mp h
      · exact .inr ⟨n, Nat.le_refl n, rfl⟩
      · exact (ih h).imp_right fun ⟨k, hk, hname⟩ => ⟨k, Nat.le_of_succ_le hk, hname⟩
    · exact ih h

theorem ids_sublist (l : List InputFile) (n : Nat) : (ids l).Sublist (ids (fillAll fresh l n).1) := by
  induction l generalizing n with
  | nil => exact .slnil
  | cons f l ih =>
    obtain ⟨id, hl, hfilled⟩ | ⟨hl, hfilled⟩ | ⟨hl, hfilled⟩ := ids_fillAll_cons fresh f l n
    all_goals rw [hfilled, hl]
    · exact (ih n).cons_cons id
    · exact (ih (n + 1)).cons (fresh n)
    · exact ih n

/-- The ids that are still to come differ from each other and from those that
are in use: what a random UUID is relied on for. -/
structure Unused (fresh : Nat → String) (n : Nat) (used : List String) : Prop where
  injective : ∀ j k, fresh j = fresh k → j = k
  unused : ∀ k, n ≤ k → fresh k ∉ used

theorem Unused.succ {n : Nat} {used used' : List String} (h : Unused fresh n used) (hsub : used' ⊆ used) (n' : Nat)
    (hn : n ≤ n') : Unused fresh n' used' :=
  ⟨h.injective, fun k hk hused => h.unused k (Nat.le_trans hn hk) (hsub hused)⟩

theorem ids_nodup {l : List InputFile} {n : Nat} (hfresh : Unused fresh n (ids l)) (h : (ids l).Nodup) :
    (ids (fillAll fresh l n).1).Nodup := by
  induction l generalizing n with
  | nil => exact .nil
  | cons f l ih =>
    obtain ⟨id, hl, hfilled⟩ | ⟨hl, hfilled⟩ | ⟨hl, hfilled⟩ := ids_fillAll_cons fresh f l n
    all_goals rw [hl] at h hfresh; rw [hfilled]
    · obtain ⟨hid, h⟩ := List.nodup_cons.mp h
      refine List.nodup_cons.mpr ⟨fun hmem => ?_, ih (hfresh.succ (List.subset_cons_self _ _) n (Nat.le_refl n)) h⟩
      obtain hmem | ⟨k, hk, rfl⟩ := mem_ids_fillAll hmem
      · exact hid hmem
      · exact hfresh.unused k hk List.mem_cons_self
    · refine List.nodup_cons.mpr ⟨fun hmem => ?_, ih (hfresh.succ (List.Subset.refl _) (n + 1) (Nat.le_succ n)) h⟩
      obtain hmem | ⟨k, hk, hname⟩ := mem_ids_fillAll hmem
      · exact hfresh.unused n (Nat.le_refl n) hmem
      · exact absurd (hfresh.injective _ _ hname) (by omega)
    · exact ih hfresh h

end Fresh

/-! ## Forms -/

/-- The field that holds the payload's files, and the parts by their names. -/
structure Form where
  field : Json
  parts : List (String × InputFile)

/-- mirrors serde_multipart/mod.rs:38-49, 67-78 -/
def parts (fresh : Nat → String) : List InputFile → Nat → List (String × InputFile)
  | [], _ => []
  | file :: files, n =>
    if file.needsAttach then
      let filled := file.fill fresh n
      match filled.1.intoPart with
      | some part => (filled.1.id.getD "", part) :: parts fresh files filled.2
      | none => parts fresh files filled.2
    else
      parts fresh files n

/-- mirrors serde_multipart/mod.rs:28-52 -/
def toForm (fresh : Nat → String) (payload : Payload) (n : Nat) : Form :=
  let serialized := payload.fill fresh n
  ⟨serialized.1.toJson, parts fresh serialized.1.moveFiles.1 serialized.2⟩

/-- mirrors serde_multipart/mod.rs:57-81 -/
def toFormRef (fresh : Nat → String) (payload : Payload) (n : Nat) : Form :=
  let serialized := payload.fill fresh n
  ⟨serialized.1.toJson, parts fresh serialized.1.copyFiles serialized.2⟩

/-- The part of a file that has its id. -/
def InputFile.part (file : InputFile) : String × InputFile := (file.id.getD "", file)

/-- No cell is filled once the payload is serialized. -/
theorem parts_eq {fresh : Nat → String} {l : List InputFile} (n : Nat) (h : ∀ file ∈ l, file.needsAttach → file.id.isSome) :
    parts fresh l n = (l.filter (·.needsAttach)).map (·.part) := by
  induction l generalizing n with
  | nil => rfl
  | cons f l ih =>
    have ihl := ih n fun file hfile => h file (List.mem_cons_of_mem _ hfile)
    cases hf : f.needsAttach with
    | false => simp [parts, hf, ihl]
    | true =>
      have hid : f.id.isNone = false := by simpa using h f List.mem_cons_self hf
      have hfill : f.fill fresh n = (f, n) := by simp [InputFile.fill, hid]
      simp [parts, hf, hfill, InputFile.intoPart_of_needsAttach hf, ihl, InputFile.part]

theorem names_eq {l : List InputFile} (h : ∀ file ∈ l, file.needsAttach → file.id.isSome) :
    ((l.filter (·.needsAttach)).map (·.part)).map Prod.fst = ids l := by
  induction l with
  | nil => rfl
  | cons f l ih =>
    have ihl := ih fun file hfile => h file (List.mem_cons_of_mem _ hfile)
    cases hf : f.needsAttach with
    | false => simpa [ids, InputFile.attachment, hf] using ihl
    | true =>
      obtain ⟨id, hid⟩ := Option.isSome_iff_exists.mp (h f List.mem_cons_self hf)
      simpa [ids, InputFile.attachment, hf, hid, InputFile.part] using ihl

theorem filter_eq_singleton {α β : Type} [DecidableEq β] {g : α → β} {l : List α} (h : (l.map g).Nodup) {a : α}
    (ha : a ∈ l) : l.filter (fun b => g b = g a) = [a] := by
  induction l with
  | nil => cases ha
  | cons b l ih =>
    obtain ⟨hb, hl⟩ := List.nodup_cons.mp h
    obtain rfl | ha := List.mem_cons.mp ha
    · have hnone : l.filter (fun b => g b = g a) = [] :=
        List.filter_eq_nil_iff.mpr fun c hc => by
          simpa using fun heq : g c = g a => hb (heq ▸ List.mem_map_of_mem hc)
      simp [hnone]
    · have hne : g b ≠ g a := fun heq => hb (heq ▸ List.mem_map_of_mem ha)
      simp [hne, ih hl ha]

namespace Form

/-- The uploaded files under a name. -/
def named (form : Form) (name : String) : List InputFile :=
  (form.parts.filter fun part => part.1 = name).map Prod.snd

/-- The files that the JSON refers to by a name. -/
def references (form : Form) (name : String) : List InputFile :=
  form.field.files.filter fun file => file.needsAttach ∧ file.attachOrValue = "attach://" ++ name

/-- Each reference names exactly one part, and each part is referred to exactly
once. -/
structure Agrees (form : Form) : Prop where
  named : ∀ file ∈ form.field.files, file.needsAttach →
    ∃ id, file.attachOrValue = "attach://" ++ id ∧ form.named id = [file]
  referenced : ∀ part ∈ form.parts, form.references part.1 = [part.2]
  once : (form.parts.map Prod.fst).Nodup

/-- The names of the parts are all that can go wrong. -/
theorem agrees_of_nodup {form : Form} (hparts : form.parts.Perm ((form.field.files.filter (·.needsAttach)).map (·.part)))
    (hid : ∀ file ∈ form.field.files, file.needsAttach → file.id.isSome) (h : (form.parts.map Prod.fst).Nodup) :
    form.Agrees := by
  have hnames : (ids form.field.files).Nodup := by
    rw [← names_eq hid]
    exact (hparts.map Prod.fst).nodup_iff.mp h
  have htexts : ((form.field.files.filter (·.needsAttach)).map (·.attachOrValue)).Nodup := by
    have heq : (form.field.files.filter (·.needsAttach)).map (·.attachOrValue) =
        (ids form.field.files).map ("attach://" ++ ·) := by
      rw [← names_eq hid, List.map_map, List.map_map]
      exact List.map_congr_left fun file hfile =>
        InputFile.attachOrValue_of_needsAttach (List.mem_filter.mp hfile).2
    rw [heq]
    exact List.Nodup.map (fun _ _ => (String.append_right_inj _).mp) hnames
  refine ⟨fun file hfile hneeds => ?_, fun part hpart => ?_, h⟩
  · have hpart : file.part ∈ form.parts :=
      hparts.mem_iff.mpr (List.mem_map_of_mem (List.mem_filter.mpr ⟨hfile, hneeds⟩))
    refine ⟨file.id.getD "", InputFile.attachOrValue_of_needsAttach hneeds, ?_⟩
    exact congrArg (List.map Prod.snd) (filter_eq_singleton h hpart)
  · obtain ⟨file, hfile, rfl⟩ := List.mem_map.mp (hparts.mem_iff.mp hpart)
    have hneeds := (List.mem_filter.mp hfile).2
    have hone := filter_eq_singleton htexts hfile
    rw [InputFile.attachOrValue_of_needsAttach hneeds, List.filter_filter] at hone
    rw [references]
    simpa [InputFile.part, and_comm] using hone

end Form

/-! ## What is sent -/

section Sent

variable (fresh : Nat → String) (payload : Payload) (n : Nat)

theorem toForm_eq : toForm fresh payload n = toFormRef fresh payload n := by
  rw [toForm, toFormRef, Payload.moveFiles_eq]

theorem field_id : ∀ file ∈ (toForm fresh payload n).field.files, file.needsAttach → file.id.isSome := by
  intro file hfile
  have hfilled : (fillAll fresh payload.toJson.files n).1 = (toForm fresh payload n).field.files :=
    congrArg Prod.fst (payload.fill_toJson fresh n)
  rw [← hfilled] at hfile
  exact fillAll_id hfile

theorem parts_perm : (toForm fresh payload n).parts.Perm
    (((toForm fresh payload n).field.files.filter (·.needsAttach)).map (·.part)) := by
  have hperm := (payload.fill fresh n).1.copyFiles_perm
  have hid : ∀ file ∈ (payload.fill fresh n).1.copyFiles, file.needsAttach → file.id.isSome :=
    fun file hfile => field_id fresh payload n file (hperm.mem_iff.mp hfile)
  rw [toForm_eq, toFormRef, parts_eq _ hid]
  exact (hperm.filter _).map _

theorem names_perm : ((toForm fresh payload n).parts.map Prod.fst).Perm (ids (fillAll fresh payload.toJson.files n).1) := by
  have hnames := (parts_perm fresh payload n).map Prod.fst
  rw [names_eq (field_id fresh payload n)] at hnames
  rw [payload.fill_toJson]
  exact hnames

/-- The files that are collected are the leaves of the JSON, by either walk, and
each is sent under the name that the JSON gives it. The names differ exactly
where no two of the files have the same id before the payload is serialized. -/
theorem attachments_agree : ∃ sent : Payload,
    sent = (payload.fill fresh n).1 ∧ toForm fresh payload n = toFormRef fresh payload n ∧
    (toForm fresh payload n).field = sent.toJson ∧
    sent.moveFiles.1 = sent.copyFiles ∧ sent.copyFiles.Perm sent.toJson.files ∧
    ((toForm fresh payload n).parts.map Prod.snd).Perm (sent.toJson.files.filter (·.needsAttach)) ∧
    (∀ part ∈ (toForm fresh payload n).parts, part.2.attachOrValue = "attach://" ++ part.1) ∧
    (∀ file ∈ sent.toJson.files, file.needsAttach →
      ∃ id, file.attachOrValue = "attach://" ++ id ∧ (id, file) ∈ (toForm fresh payload n).parts) ∧
    (Unused fresh n (ids payload.copyFiles) → ((toForm fresh payload n).Agrees ↔ (ids payload.copyFiles).Nodup)) := by
  have hparts := parts_perm fresh payload n
  have hids : (ids payload.copyFiles).Perm (ids payload.toJson.files) := payload.copyFiles_perm.filterMap _
  have hnames := names_perm fresh payload n
  refine ⟨_, rfl, toForm_eq fresh payload n, rfl, Payload.moveFiles_eq _, Payload.copyFiles_perm _, ?_, ?_, ?_, ?_⟩
  · have hsnd := hparts.map Prod.snd
    rw [List.map_map] at hsnd
    exact hsnd.trans (.of_eq (List.map_id _))
  · intro part hpart
    obtain ⟨file, hfile, rfl⟩ := List.mem_map.mp (hparts.mem_iff.mp hpart)
    exact InputFile.attachOrValue_of_needsAttach (List.mem_filter.mp hfile).2
  · intro file hfile hneeds
    exact ⟨file.id.getD "", InputFile.attachOrValue_of_needsAttach hneeds,
      hparts.mem_iff.mpr (List.mem_map_of_mem (List.mem_filter.mpr ⟨hfile, hneeds⟩))⟩
  · intro hfresh
    have hfresh' := hfresh.succ hids.symm.subset n (Nat.le_refl n)
    constructor
    · intro hagrees
      exact hids.nodup_iff.mpr ((hnames.nodup_iff.mp hagrees.once).sublist (ids_sublist _ n))
    · intro hnodup
      have hfilled := ids_nodup hfresh' (hids.nodup_iff.mp hnodup)
      exact Form.agrees_of_nodup hparts (field_id fresh payload n) (hnames.nodup_iff.mpr hfilled)

end Sent

/-! A photo in memory, its clones and a file that Telegram has. -/

/-- The ids `x`, `xx` and so on. -/
def idOf (k : Nat) : String := String.ofList (List.replicate (k + 1) 'x')

theorem unused_idOf {n : Nat} {used : List String} (h : ∀ name ∈ used, name.length ≤ n) : Unused idOf n used where
  injective j k heq := by
    have hlen := congrArg String.length heq
    simpa [idOf] using hlen
  unused k hk hmem := by
    have hlen := h _ hmem
    simp [idOf] at hlen
    omega

def photo : InputFile := ⟨none, none, .bytes [1]⟩

/-- What is left of the photo once it was sent by reference. -/
def sentPhoto : InputFile := (photo.fill idOf 0).1

def album : Payload :=
  .richMessage
    { blocks := some [.details (.text "photos")
        [.collage [.photo ⟨photo⟩ none, .video ⟨.ofFileId "v", some photo, some sentPhoto⟩ none] none]]
      html := none
      markdown := none
      media := some [⟨"cover", .photo ⟨photo⟩⟩] }

theorem attachments_agree_album : (toForm idOf album 1).Agrees := by
  obtain ⟨_, -, -, -, -, -, -, -, -, hagrees⟩ := attachments_agree idOf album 1
  exact (hagrees (unused_idOf (by decide))).mpr (by decide)

/-- Two clones of a photo that was sent before go under one name. -/
theorem sentPhoto_twice : Unused idOf 1 (ids (Payload.mediaGroup [.photo ⟨sentPhoto⟩, .photo ⟨sentPhoto⟩]).copyFiles) ∧
    (toForm idOf (.mediaGroup [.photo ⟨sentPhoto⟩, .photo ⟨sentPhoto⟩]) 1).parts =
      [("x", sentPhoto), ("x", sentPhoto)] ∧
    ¬(toForm idOf (.mediaGroup [.photo ⟨sentPhoto⟩, .photo ⟨sentPhoto⟩]) 1).Agrees := by
  refine ⟨unused_idOf (by decide), by decide, fun hagrees => ?_⟩
  have honce := hagrees.once
  revert honce
  decide

end Teloxide.Types
