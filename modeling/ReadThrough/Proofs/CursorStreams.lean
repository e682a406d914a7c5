import ReadThrough.Cursor
import ReadThrough.Proofs.CandidSources

/-!
# Cursors over sources that fail

A cursor reads on where its last read has ended, and a read that stops after some bytes counts as a
short one. So whatever fails, what a cursor delivers from one seek to the next is one piece of the
content (`cursor_streams_content`): a read that is tried again repeats nothing and leaves out
nothing. `Cursor.Use.Right` is how each use of a cursor has to move it, and `Cursor.Leads` puts the
uses in a row.
-/

namespace ReadThrough

/-! ## Uses of a cursor -/

namespace Cursor

/-- What was asked of a cursor, and what came back. -/
inductive Deed where
  | read (buffer : Bytes) (transfer : Transfer)
  | seek (wish : Seek) (answer : Except IoError Nat)

/-- A read or a seek, with the cursor before and after it. -/
structure Use where
  before : Cursor
  deed : Deed
  after : Cursor

namespace Use

/-- A read, with its report and the cursor after it. -/
def ofRead (c : Cursor) (buffer : Bytes) (result : Transfer × Cursor) : Use :=
  ⟨c, .read buffer result.1, result.2⟩

/-- A seek, with its answer and the cursor after it. -/
def ofSeek (c : Cursor) (wish : Seek) (result : Except IoError Nat × Cursor) : Use :=
  ⟨c, .seek wish result.1, result.2⟩

/-- Whether a use is a read. -/
def IsRead (u : Use) : Prop := ∃ buffer transfer, u.deed = .read buffer transfer

/-- The bytes that a use has delivered. -/
def delivered (u : Use) : Bytes :=
  match u.deed with
  | .read _ ⟨.count n, written⟩ => written.take n
  | _ => []

/-- A read delivers the bytes of the content from where the cursor is and moves it past them, or it
fails and leaves the cursor where it is; from the end of the view on, and nowhere else, there is
nothing to read. A seek puts the cursor exactly where it is asked to, if there is such a
position. -/
def Right (content : Content) (view : View) (u : Use) : Prop :=
  match u.deed with
  | .read buffer transfer =>
    match transfer.reply with
    | .count n =>
      transfer.written.take n = content.slice u.before.position n ∧
        u.after.position = u.before.position + n ∧
        u.after.position ≤ max u.before.position view.size ∧
        n ≤ buffer.length ∧ (buffer ≠ [] → (n = 0 ↔ view.size ≤ u.before.position))
    | .failed _ => u.after = u.before ∧ u.before.position < view.size
    | .abandoned => False
  | .seek wish answer =>
    let wanted := target view u.before wish
    if 0 ≤ wanted ∧ wanted < positionLimit then
      ∃ n : Nat, answer = .ok n ∧ (n : Int) = wanted ∧ u.after = ⟨n⟩
    else (∃ error, answer = .error error ∧ error.kind = .invalidInput) ∧ u.after = u.before

variable {content : Content} {view : View} {u : Use}

theorem right_ofRead_count {c : Cursor} {buffer written : Bytes} {n : Nat}
    (hbytes : written.take n = content.slice c.position n)
    (hend : c.position + n ≤ max c.position view.size) (hle : n ≤ buffer.length)
    (hzero : buffer ≠ [] → (n = 0 ↔ view.size ≤ c.position)) :
    (ofRead c buffer (⟨.count n, written⟩, ⟨c.position + n⟩)).Right content view :=
  ⟨hbytes, rfl, hend, hle, hzero⟩

/-- Positions stay within 64 bits. -/
theorem Right.position_lt (h : u.Right content view) (hsigned : view.size < Reader.offsetLimit)
    (hbefore : u.before.position < positionLimit) : u.after.position < positionLimit := by
  have hlimits : Reader.offsetLimit < positionLimit := by decide
  obtain ⟨before, deed, after⟩ := u
  cases deed with
  | read buffer transfer =>
    obtain ⟨reply, written⟩ := transfer
    cases reply with
    | count n =>
      have hend : after.position ≤ max before.position view.size := h.2.2.1
      dsimp only at hbefore ⊢
      omega
    | failed error => rwa [show after = before from h.1]
    | abandoned => exact h.elim
  | seek wish answer =>
    unfold Right at h
    dsimp only at h
    split at h
    · rename_i hwanted
      obtain ⟨n, -, hn, rfl⟩ := h
      dsimp only
      omega
    · rwa [h.2]

/-- A read delivers a piece of the content, as long as the cursor has moved. -/
theorem Right.delivered_eq (h : u.Right content view) (hread : u.IsRead)
    (hsize : view.size ≤ content.size) :
    u.delivered = content.slice u.before.position u.delivered.length ∧
      u.after.position = u.before.position + u.delivered.length ∧
      (u.delivered ≠ [] → u.after.position ≤ content.size) := by
  obtain ⟨before, deed, after⟩ := u
  obtain ⟨buffer, ⟨reply, written⟩, rfl⟩ := hread
  cases reply with
  | count n =>
    obtain ⟨hbytes, hafter, hend, -⟩ := h
    show written.take n = content.slice before.position (written.take n).length ∧
      after.position = before.position + (written.take n).length ∧
      (written.take n ≠ [] → after.position ≤ content.size)
    -- The cursor does not pass the end of the view, so no byte of the piece is missing.
    have hlength : (written.take n).length = n := by
      rw [hbytes, Content.length_slice]
      dsimp only at hafter hend ⊢
      omega
    rw [hlength]
    refine ⟨hbytes, hafter, fun hne => ?_⟩
    have hpos : n ≠ 0 := by
      rintro rfl
      exact hne rfl
    dsimp only at hafter hend
    omega
  | failed error =>
    exact ⟨(Content.slice_zero ..).symm, congrArg position h.1, fun hne => absurd rfl hne⟩
  | abandoned => exact h.elim

end Use

variable {content : Content} {view : View}

/-- A seek does what is right, wherever the cursor is. -/
theorem seek_right (content : Content) (view : View) (c : Cursor) (wish : Seek) :
    (Use.ofSeek c wish (c.seek view wish)).Right content view := by
  unfold Use.Right Use.ofSeek
  dsimp only
  unfold seek
  dsimp only
  split
  · rename_i hwanted
    exact ⟨_, rfl, Int.toNat_of_nonneg hwanted.1, rfl⟩
  · exact ⟨⟨invalidSeek, rfl, rfl⟩, rfl⟩

section Read

variable {σ : Type} {p : Place σ} {contents : UInt32 → Content} {first : Cache}
  {held : Fin Geometry.bucketCount → List Slot} {s : σ} {source : Source (StateM σ)} {c : Cursor}

/-- Where there is no signed number for the position, nothing is read. -/
theorem read_of_offsetLimit_le (r : Reader (StateM σ)) (h : Reader.offsetLimit ≤ c.position)
    (buffer : Bytes) (s : σ) : c.read r buffer s = ((⟨.count 0, []⟩, c), s) := by
  unfold read
  rw [if_pos h]
  rfl

theorem read_of_lt (r : Reader (StateM σ)) (h : c.position < Reader.offsetLimit)
    (buffer : Bytes) (s : σ) :
    let read := r.readAt c.position buffer s
    let reply := replyOf read.1.outcome
    c.read r buffer s = ((⟨reply, read.1.buffer⟩, c.advance reply), read.2) := by
  unfold Cursor.read
  rw [if_neg (Nat.not_le.2 h)]
  rfl

/-- A read reports how the run of its call has ended. -/
theorem read_of_runFor {geometry : Geometry} (hgeometry : (p.get s).geometry = geometry)
    (h : c.position < Reader.offsetLimit) (view : View) (buffer : Bytes) {ended : Call} {s' : σ}
    (hrun : let started := Call.start view geometry.pageShift c.position buffer
      started.runFor p.host source started.stepBound s = (ended, s')) :
    let reply := replyOf ended.outcome
    c.read (p.reader view source) buffer s
      = ((⟨reply, ended.destination.contents⟩, c.advance reply), s') := by
  have hread := read_of_lt (p.reader view source) h buffer s
  rw [Place.readAt_reader, hgeometry, hrun] at hread
  exact hread

/-- A read does what is right, whatever its source fails at and however much of the range is
resident. -/
theorem read_right (hcandid : p.Candid contents first view.object source)
    (hsize : view.size ≤ (contents view.object).size) (hsigned : view.size < Reader.offsetLimit)
    (h : p.Mirrors contents first held s) (c : Cursor) (buffer : Bytes) :
    let result := c.read (p.reader view source) buffer s
    p.Mirrors contents first held result.2 ∧
      (Use.ofRead c buffer result.1).Right (contents view.object) view := by
  intro result
  rcases Nat.lt_or_ge c.position Reader.offsetLimit with hlt | hle
  · obtain ⟨hmirrors, count, cause, houtcome, hbytes, hall, hstopped⟩ :=
      hcandid.readAt_slice hsize h c.position buffer
    rw [show result = _ from read_of_lt _ hlt buffer s, houtcome]
    refine ⟨hmirrors, ?_⟩
    cases cause with
    | none =>
      have hcount := hall rfl
      refine Use.right_ofRead_count hbytes (by omega) (by omega) fun hne => ?_
      have hpos := List.length_pos_iff.2 hne
      omega
    | some cause =>
      have hcount := hstopped (by simp)
      rcases Nat.eq_zero_or_pos count with rfl | hpos
      · have hbefore : c.position < view.size := by omega
        exact ⟨rfl, hbefore⟩
      · have hreply : replyOf (.ofDelivery count (some cause)) = .count count := if_pos hpos
        rw [hreply]
        exact Use.right_ofRead_count hbytes (by omega) (by omega) fun _ => by omega
  · rw [show result = _ from read_of_offsetLimit_le _ hle buffer s]
    have hpast : view.size ≤ c.position := Nat.le_trans (Nat.le_of_lt hsigned) hle
    exact ⟨h, Use.right_ofRead_count (Content.slice_zero ..).symm (Nat.le_max_left ..)
      (Nat.zero_le _) fun _ => iff_of_true rfl hpast⟩

end Read

/-! ## Uses in a row -/

/-- Each use finds the cursor where the one before has left it. -/
def Leads : Cursor → List Use → Cursor → Prop
  | c, [], c' => c = c'
  | c, u :: uses, c' => u.before = c ∧ Leads u.after uses c'

theorem leads_append {c c' : Cursor} {uses later : List Use} :
    Leads c (uses ++ later) c' ↔ ∃ mid, Leads c uses mid ∧ Leads mid later c' := by
  induction uses generalizing c with
  | nil => simp [Leads]
  | cons u uses ih => simp only [List.cons_append, Leads, ih, and_assoc, exists_and_left]

/-- Uses that are right never take the cursor past 64 bits. -/
theorem Leads.position_lt {c c' : Cursor} {uses : List Use} (h : Leads c uses c')
    (hright : ∀ u ∈ uses, u.Right content view) (hsigned : view.size < Reader.offsetLimit)
    (hc : c.position < positionLimit) :
    ∀ u ∈ uses, u.before.position < positionLimit ∧ u.after.position < positionLimit := by
  induction uses generalizing c with
  | nil => exact fun u hu => absurd hu List.not_mem_nil
  | cons u uses ih =>
    obtain ⟨rfl, hrest⟩ := h
    have hafter := (hright u List.mem_cons_self).position_lt hsigned hc
    intro v hv
    obtain rfl | hv := List.mem_cons.1 hv
    · exact ⟨hc, hafter⟩
    · exact ih hrest (fun w hw => hright w (List.mem_cons_of_mem u hw)) hafter v hv

/-- What reads in a row deliver is one piece of the content. -/
theorem Leads.delivered_eq {c c' : Cursor} {reads : List Use} (h : Leads c reads c')
    (hright : ∀ u ∈ reads, u.Right content view) (hreads : ∀ u ∈ reads, u.IsRead)
    (hsize : view.size ≤ content.size) :
    let bytes := reads.flatMap Use.delivered
    bytes = content.slice c.position bytes.length ∧
      c'.position = c.position + bytes.length ∧ (bytes ≠ [] → c'.position ≤ content.size) := by
  induction reads generalizing c with
  | nil =>
    obtain rfl : c = c' := h
    exact ⟨(Content.slice_zero ..).symm, rfl, fun hne => absurd rfl hne⟩
  | cons u reads ih =>
    obtain ⟨rfl, hrest⟩ := h
    obtain ⟨hbytes, hafter, hend⟩ :=
      (hright u List.mem_cons_self).delivered_eq (hreads u List.mem_cons_self) hsize
    obtain ⟨hbytes', hafter', hend'⟩ := ih hrest
      (fun v hv => hright v (List.mem_cons_of_mem u hv))
      (fun v hv => hreads v (List.mem_cons_of_mem u hv))
    rw [List.flatMap_cons]
    generalize u.delivered = bytes at hbytes hafter hend ⊢
    generalize reads.flatMap Use.delivered = bytes' at hbytes' hafter' hend' ⊢
    rw [hafter] at hafter' hbytes'
    -- If the other reads deliver nothing, the cursor stays where the first one has put it.
    have hend'' : bytes ++ bytes' ≠ [] → c'.position ≤ content.size := by
      intro hne
      cases bytes' with
      | nil =>
        have hsame : c'.position = u.after.position := hafter'.trans hafter.symm
        rw [List.append_nil] at hne
        exact hsame ▸ hend hne
      | cons b bytes' => exact hend' (by simp)
    refine ⟨?_, ?_, hend''⟩
    · rw [List.length_append]
      by_cases hne : bytes ++ bytes' = []
      · obtain ⟨rfl, rfl⟩ := List.append_eq_nil_iff.1 hne
        exact (Content.slice_zero ..).symm
      · have hwithin := hend'' hne
        rw [← Content.slice_append (by omega), ← hbytes, ← hbytes']
    · rw [hafter', List.length_append, Nat.add_assoc]

end Cursor

/-! ## Sessions -/

/-- The uses of a cursor over a view, the latest one last, where it is after them, and the state
then. Between two uses others may bring about any state that is permitted. -/
inductive CursorSession {σ : Type} (reader : Reader (StateM σ)) (permits : σ → Prop)
    (start : Cursor) (s₀ : σ) : List Cursor.Use → Cursor → σ → Prop
  | start : CursorSession reader permits start s₀ [] start s₀
  | read {uses : List Cursor.Use} {c : Cursor} {s : σ} (buffer : Bytes) :
    CursorSession reader permits start s₀ uses c s →
    CursorSession reader permits start s₀
      (uses ++ [.ofRead c buffer (c.read reader buffer s).1]) (c.read reader buffer s).1.2
      (c.read reader buffer s).2
  | seek {uses : List Cursor.Use} {c : Cursor} {s : σ} (wish : Seek) :
    CursorSession reader permits start s₀ uses c s →
    CursorSession reader permits start s₀
      (uses ++ [.ofSeek c wish (c.seek reader.view wish)]) (c.seek reader.view wish).2 s
  | meanwhile {uses : List Cursor.Use} {c : Cursor} {s s' : σ} :
    CursorSession reader permits start s₀ uses c s → permits s' →
    CursorSession reader permits start s₀ uses c s'

namespace CursorSession

variable {σ : Type} {reader : Reader (StateM σ)} {permits : σ → Prop} {start c : Cursor} {s₀ s : σ}
  {uses : List Cursor.Use}

theorem leads (h : CursorSession reader permits start s₀ uses c s) :
    Cursor.Leads start uses c := by
  induction h with
  | start => rfl
  | read buffer _ ih => exact Cursor.leads_append.2 ⟨_, ih, rfl, rfl⟩
  | seek wish _ ih => exact Cursor.leads_append.2 ⟨_, ih, rfl, rfl⟩
  | meanwhile _ _ ih => exact ih

variable {p : Place σ} {contents : UInt32 → Content} {first : Cache} {view : View}
  {source : Source (StateM σ)}

/-- Every use is right, and the cache goes on mirroring the contents. -/
theorem right (hcandid : p.Candid contents first view.object source)
    (hsize : view.size ≤ (contents view.object).size) (hsigned : view.size < Reader.offsetLimit)
    (hmirrors : ∃ held, p.Mirrors contents first held s₀)
    (h : CursorSession (p.reader view source) (fun s => ∃ held, p.Mirrors contents first held s)
      start s₀ uses c s) :
    (∃ held, p.Mirrors contents first held s) ∧
      ∀ u ∈ uses, u.Right (contents view.object) view := by
  induction h with
  | start => exact ⟨hmirrors, by simp⟩
  | @read uses c s buffer _ ih =>
    obtain ⟨⟨held, hheld⟩, hright⟩ := ih
    obtain ⟨hafter, hread⟩ := Cursor.read_right hcandid hsize hsigned hheld c buffer
    refine ⟨⟨held, hafter⟩, fun u hu => ?_⟩
    obtain hu | hu := List.mem_append.1 hu
    · exact hright u hu
    · exact List.mem_singleton.1 hu ▸ hread
  | @seek uses c s wish _ ih =>
    obtain ⟨hheld, hright⟩ := ih
    refine ⟨hheld, fun u hu => ?_⟩
    obtain hu | hu := List.mem_append.1 hu
    · exact hright u hu
    · exact List.mem_singleton.1 hu ▸ Cursor.seek_right _ view c wish
  | meanwhile _ hpermits ih => exact ⟨hpermits, ih.2⟩

end CursorSession

/-- Over a source that may fail at any read, in whatever state the cache is, each use of a cursor is
right and stays within 64 bits; and what reads in a row have delivered, with all their failures and
repetitions, is the content from where the first of them found the cursor to where the last has left
it. -/
theorem cursor_streams_content {σ : Type} {p : Place σ} {contents : UInt32 → Content}
    {first : Cache} {view : View} {source : Source (StateM σ)}
    (hcandid : p.Candid contents first view.object source)
    (hsize : view.size ≤ (contents view.object).size) (hsigned : view.size < Reader.offsetLimit)
    {start c : Cursor} (hstart : start.position < Cursor.positionLimit) {s₀ s : σ}
    (hmirrors : ∃ held, p.Mirrors contents first held s₀) {uses : List Cursor.Use}
    (h : CursorSession (p.reader view source) (fun s => ∃ held, p.Mirrors contents first held s)
      start s₀ uses c s) :
    (∀ u ∈ uses, u.Right (contents view.object) view ∧
      u.before.position < Cursor.positionLimit ∧ u.after.position < Cursor.positionLimit) ∧
    ∀ earlier reads later, uses = earlier ++ reads ++ later → (∀ u ∈ reads, u.IsRead) →
      ∃ c₁ c₂, Cursor.Leads start earlier c₁ ∧ Cursor.Leads c₁ reads c₂ ∧
        Cursor.Leads c₂ later c ∧
        let bytes := reads.flatMap Cursor.Use.delivered
        bytes = (contents view.object).slice c₁.position bytes.length ∧
          c₂.position = c₁.position + bytes.length := by
  have hright := (h.right hcandid hsize hsigned hmirrors).2
  refine ⟨fun u hu => ⟨hright u hu, h.leads.position_lt hright hsigned hstart u hu⟩, ?_⟩
  rintro earlier reads later rfl hreads
  obtain ⟨c₂, hfront, hlater⟩ := Cursor.leads_append.1 h.leads
  obtain ⟨c₁, hearlier, hrow⟩ := Cursor.leads_append.1 hfront
  obtain ⟨hbytes, hend, -⟩ := hrow.delivered_eq
    (fun u hu => hright u (List.mem_append_left _ (List.mem_append_right _ hu))) hreads hsize
  exact ⟨c₁, c₂, hearlier, hrow, hlater, hbytes, hend⟩

section FailedFetch

attribute [local simp] Rack.place Tower.bottom Call.receive Call.setFrame Call.deliver Call.visit
  Call.key Call.frame Call.wholePage Call.want Call.intra Call.pageStart Call.page Call.pageSize
  Call.pageLimit Call.stopFor Call.finish Destination.stage Destination.deliver Destination.copied
  Bytes.overlay

/-- A read of three bytes over pages of two, whose second fetch fails, and a second try: the first
delivers two bytes and the second the third one, and nobody is told of the failure. -/
theorem cursor_streams_content_over_failed_fetch :
    let source : Source (StateM (Rack 1)) := Tower.bottom (.ofBytes [1, 2, 3]) fun ask =>
      if ask = 1 then some ⟨⟨.timedOut, none⟩, []⟩ else none
    let reader := (Rack.place 0).reader ⟨5, 3⟩ source
    let tried := Cursor.read reader ⟨0⟩ [0, 0, 0] { caches := fun _ => .ofGeometry ⟨1, 64⟩ 7 }
    let again := Cursor.read reader tried.1.2 [0, 0, 0] tried.2
    let bytes := (Cursor.Use.ofRead ⟨0⟩ [0, 0, 0] tried.1).delivered
      ++ (Cursor.Use.ofRead tried.1.2 [0, 0, 0] again.1).delivered
    bytes = [1, 2, 3] ∧ tried.1.2.position = 2 ∧ again.1.2.position = 3 ∧ again.2.asked = 3 := by
  obtain ⟨cache, hcache, hgeometry, hkeeps⟩ : ∃ cache, cache = Cache.ofGeometry ⟨1, 64⟩ 7 ∧
      cache.geometry = ⟨1, 64⟩ ∧ ∀ good, cache.Keeps good fun _ => [] :=
    ⟨_, rfl, rfl, fun _ => Cache.keeps_ofGeometry ..⟩
  rw [← hcache]
  intro source reader tried again bytes
  have hset (cache' cache : Cache) (asked : Nat) :
      (Rack.place (0 : Fin 1)).set cache' ⟨fun _ => cache, asked⟩ = ⟨fun _ => cache', asked⟩ := by
    refine congrArg (Rack.mk · asked) (funext fun i => ?_)
    rw [Subsingleton.elim i 0]
    exact Function.update_self ..
  have hsize {cache : Cache} (h : cache.geometry = ⟨1, 64⟩) :
      2 = 1 <<< cache.geometry.pageShift := by
    rw [h]
    rfl
  have hpages {cache : Cache} (h : cache.geometry = ⟨1, 64⟩) :
      1 ≤ cache.geometry.pagesPerBucket := by
    rw [h]
    exact Nat.le_refl 1
  -- The first read gets the first page.
  obtain ⟨cache₁, hgeometry₁, hkeeps₁, hrun₁⟩ := Call.exists_runFor_of_fetched (Rack.place 0) source
    ⟨⟨5, 3⟩, 1, 0, 3, ⟨[], [0, 0, 0]⟩, [], .lookup⟩ ⟨fun _ => cache, 0⟩ ⟨fun _ => cache, 1⟩
    (hkeeps fun _ _ => False) (fun _ => id) rfl (hsize hgeometry) (hpages hgeometry)
    ⟨.count 2, [1, 2]⟩ (fun _ => by simp [source]; rfl)
    (fun slot => ⟨⟨5, 3⟩, 1, 0, 3, ⟨[], [1, 2, 0]⟩, [], .publish slot 2⟩)
    (fun slot => by simp) (fun _ => rfl)
    ⟨⟨5, 3⟩, 1, 2, 3, ⟨[2, 1], [0]⟩, [], .lookup⟩ (fun slot => by simp)
  replace hgeometry₁ : cache₁.geometry = ⟨1, 64⟩ := hgeometry₁.trans hgeometry
  -- It does not get the second one and stops.
  obtain ⟨cache₂, hgeometry₂, hkeeps₂, hrun₂⟩ := Call.exists_runFor_of_failed (Rack.place 0) source
    ⟨⟨5, 3⟩, 1, 2, 3, ⟨[2, 1], [0]⟩, [], .lookup⟩ ⟨fun _ => cache₁, 1⟩ ⟨fun _ => cache₁, 2⟩
    hkeeps₁ (by simp) rfl (hsize hgeometry₁) (hpages hgeometry₁)
    ⟨.failed ⟨.timedOut, none⟩, []⟩ (fun _ => by simp [source])
    (fun slot => ⟨⟨5, 3⟩, 1, 2, 3, ⟨[2, 1], [0]⟩, [0, 0], .release slot (.io ⟨.timedOut, none⟩)⟩)
    (fun slot => by simp; rfl) (fun _ => rfl)
    ⟨⟨5, 3⟩, 1, 2, 3, ⟨[2, 1], [0]⟩, [0, 0], .finished (.stopped ⟨2, .io ⟨.timedOut, none⟩⟩)⟩
    (fun slot => by simp)
  replace hgeometry₂ : cache₂.geometry = ⟨1, 64⟩ := hgeometry₂.trans hgeometry₁
  -- The second read starts there and gets it.
  obtain ⟨cache₃, -, -, hrun₃⟩ := Call.exists_runFor_of_fetched (Rack.place 0) source
    ⟨⟨5, 3⟩, 1, 2, 3, ⟨[], [0, 0, 0]⟩, [], .lookup⟩ ⟨fun _ => cache₂, 2⟩ ⟨fun _ => cache₂, 3⟩
    hkeeps₂ (by simp) rfl (hsize hgeometry₂) (hpages hgeometry₂)
    ⟨.count 1, [3]⟩ (fun _ => by simp [source]; rfl)
    (fun slot => ⟨⟨5, 3⟩, 1, 2, 3, ⟨[], [0, 0, 0]⟩, [3, 0], .publish slot 1⟩)
    (fun slot => by simp; rfl) (fun _ => rfl)
    ⟨⟨5, 3⟩, 1, 3, 3, ⟨[3], [0, 0]⟩, [3, 0], .finished (.done 1)⟩ (fun slot => by simp)
  rw [hset] at hrun₁ hrun₂ hrun₃
  have htried := Cursor.read_of_runFor (p := Rack.place 0) (s := ⟨fun _ => cache, 0⟩) (c := ⟨0⟩)
    hgeometry (by decide) ⟨5, 3⟩ [0, 0, 0] ((hrun₁ 8).trans (hrun₂ 4))
  replace htried : tried = ((⟨.count 2, [1, 2, 0]⟩, ⟨2⟩), ⟨fun _ => cache₂, 2⟩) := htried
  have hagain : again = ((⟨.count 1, [3, 0, 0]⟩, ⟨3⟩), ⟨fun _ => cache₃, 3⟩) := by
    show Cursor.read reader tried.1.2 [0, 0, 0] tried.2 = _
    rw [htried]
    have hread := Cursor.read_of_runFor (p := Rack.place 0) (s := ⟨fun _ => cache₂, 2⟩) (c := ⟨2⟩)
      hgeometry₂ (by decide) ⟨5, 3⟩ [0, 0, 0] (hrun₃ 0)
    exact hread
  have hmirrors : (Rack.place 0).Mirrors (fun _ => .ofBytes [1, 2, 3]) cache (fun _ => [])
      (⟨fun _ => cache, 0⟩ : Rack 1) := ⟨rfl, rfl, hkeeps _⟩
  have hsession : CursorSession reader (fun s => ∃ held, (Rack.place 0).Mirrors
      (fun _ => .ofBytes [1, 2, 3]) cache held s) ⟨0⟩ _
      [.ofRead ⟨0⟩ [0, 0, 0] tried.1, .ofRead tried.1.2 [0, 0, 0] again.1] again.1.2 again.2 :=
    (CursorSession.start.read [0, 0, 0]).read [0, 0, 0]
  obtain ⟨c₁, c₂, rfl, -, rfl, hbytes, hend⟩ :=
    (cursor_streams_content (Place.candid_bottom 0 _ _ _ 5) (Nat.le_refl 3) (by decide) (by decide)
      ⟨_, hmirrors⟩ hsession).2 []
      [.ofRead ⟨0⟩ [0, 0, 0] tried.1, .ofRead tried.1.2 [0, 0, 0] again.1] [] rfl
      (by simp [Cursor.Use.IsRead, Cursor.Use.ofRead])
  rw [List.flatMap_cons, List.flatMap_singleton] at hbytes hend
  -- The cursor has come three bytes far, so it has delivered as many.
  have hthree : bytes.length = 3 :=
    (Nat.zero_add _).symm.trans (hend.symm.trans (congrArg (fun a => a.1.2.position) hagain))
  replace hbytes : bytes = (Content.ofBytes [1, 2, 3]).slice 0 bytes.length := hbytes
  rw [hthree] at hbytes
  exact ⟨hbytes, congrArg (fun a => a.1.2.position) htried,
    congrArg (fun a => a.1.2.position) hagain, congrArg (fun a => a.2.asked) hagain⟩

end FailedFetch

end ReadThrough
