import SmbDiscover.Smbclient
import SmbDiscover.Lib.Fields

/-!
# Shares in the response (`_smbc_browse_dir`, util_smbclient.c:107-232)

Which shares of the table the loop lists, with their positions, and which of them
are what `switch(dirInfo.type & 7)` means to let through. The mask takes the flag bits
away, so no label of a temporary or hidden variant is ever reached.
-/

namespace SmbDiscover
open CText CJson ListText

/-! ### Loop and listed shares -/

/-- The shares that `browseLoop` appends an object for, with their positions. -/
def browseAdded (env : SmbclientEnv) (maxDirCount : ℕ) :
    ℕ → ℕ → List ShareInfo → List (ShareInfo × ℕ)
  | _, _, [] => []
  | tmp, dirCount, dirInfo :: rest =>
    if dirCount < maxDirCount then
      if shouldShowDir dirInfo && env.json (.dirObj tmp) then
        (dirInfo, tmp) :: browseAdded env maxDirCount (tmp + 1) (dirCount + 1) rest
      else browseAdded env maxDirCount (tmp + 1) dirCount rest
    else []

def addedObject (env : SmbclientEnv) (p : ShareInfo × ℕ) : CJson := dirObject env p.2 p.1

theorem browseLoop_added (env : SmbclientEnv) (maxDirCount tmp dirCount : ℕ)
    (shares : List ShareInfo) (arr : List CJson) :
    browseLoop env maxDirCount tmp dirCount shares arr =
      arr ++ (browseAdded env maxDirCount tmp dirCount shares).map (addedObject env) := by
  induction shares generalizing tmp dirCount arr with
  | nil => simp [browseLoop, browseAdded]
  | cons dirInfo rest ih =>
    unfold browseLoop browseAdded
    by_cases hlimit : dirCount < maxDirCount
    · rw [if_pos hlimit, if_pos hlimit]
      cases hshow : shouldShowDir dirInfo with
      | false => simp [ih]
      | true =>
        cases hobj : env.json (.dirObj tmp) with
        | false => simp [ih]
        | true => simp [ih, addedObject]
    · rw [if_neg hlimit, if_neg hlimit]
      simp

def listable (env : SmbclientEnv) (p : ShareInfo × ℕ) : Bool :=
  shouldShowDir p.1 && env.json (.dirObj p.2)

theorem browseAdded_eq (env : SmbclientEnv) (maxDirCount tmp dirCount : ℕ)
    (shares : List ShareInfo) :
    browseAdded env maxDirCount tmp dirCount shares =
      ((shares.zipIdx tmp).filter (listable env)).take (maxDirCount - dirCount) := by
  induction shares generalizing tmp dirCount with
  | nil => simp [browseAdded]
  | cons dirInfo rest ih =>
    unfold browseAdded
    rw [List.zipIdx_cons]
    by_cases hlimit : dirCount < maxDirCount
    · rw [if_pos hlimit]
      obtain ⟨room, hroom⟩ : ∃ room, maxDirCount - dirCount = room + 1 :=
        ⟨maxDirCount - dirCount - 1, by omega⟩
      have hnext : maxDirCount - (dirCount + 1) = room := by omega
      cases hpass : shouldShowDir dirInfo && env.json (.dirObj tmp) with
      | false =>
        have hskip : ¬ listable env (dirInfo, tmp) = true := by simp [listable, hpass]
        rw [List.filter_cons_of_neg hskip]
        exact ih (tmp + 1) dirCount
      | true =>
        have hkeep : listable env (dirInfo, tmp) = true := hpass
        rw [List.filter_cons_of_pos hkeep, hroom, List.take_succ_cons, ← hnext, ← ih]
        rfl
    · have hfull : maxDirCount - dirCount = 0 := by omega
      rw [if_neg hlimit, hfull, List.take_zero]

def exposedShares (env : SmbclientEnv) (maxDirCount : ℕ) : List (ShareInfo × ℕ) :=
  if env.pipeOpenNoauth && env.ntStatusIsOk && env.wErrorIsOk then
    browseAdded env maxDirCount 0 0 env.shares
  else []

theorem smbcBrowseDir_exposed (env : SmbclientEnv) (maxDirCount : ℕ) (arr : List CJson) :
    (smbcBrowseDir env maxDirCount arr).2 =
      arr ++ (exposedShares env maxDirCount).map (addedObject env) := by
  unfold smbcBrowseDir browseShares exposedShares
  cases env.pipeOpenNoauth with
  | false => simp
  | true =>
    cases env.ntStatusIsOk <;> cases env.wErrorIsOk <;> simp [browseLoop_added]

theorem exposedShares_enumerated (env : SmbclientEnv) (maxDirCount : ℕ) (h : Enumerated env) :
    exposedShares env maxDirCount = (env.shares.zipIdx.filter (listable env)).take maxDirCount := by
  obtain ⟨hpipe, hstatus, hwerr⟩ := h
  unfold exposedShares
  rw [hpipe, hstatus, hwerr, browseAdded_eq]
  rfl

theorem exposedShares_failed (env : SmbclientEnv) (maxDirCount : ℕ) (h : ¬ Enumerated env) :
    exposedShares env maxDirCount = [] := by
  unfold exposedShares
  split
  next hall =>
    simp only [Bool.and_eq_true] at hall
    exact absurd ⟨hall.1.1, hall.1.2, hall.2⟩ h
  · rfl

/-! ### Types of the listed shares (util_smbclient.c:159-180) -/

def ShownName (dirInfo : ShareInfo) : Prop :=
  ∃ name, dirInfo.name = some name ∧ name ≠ .empty ∧ name.bytes.getLast? ≠ some 36

theorem shouldShowDir_iff (dirInfo : ShareInfo) :
    shouldShowDir dirInfo = true ↔ dirInfo.type &&& 7 = stypeDisktree ∧ ShownName dirInfo := by
  unfold shouldShowDir ShownName
  cases dirInfo.name with
  | none => simp
  | some name => simp

def PlainShare (dirInfo : ShareInfo) : Prop := dirInfo.type = stypeDisktree ∧ ShownName dirInfo

theorem plainShare_iff (env : SmbclientEnv) (p : ShareInfo × ℕ) (h : listable env p = true) :
    PlainShare p.1 ↔ p.1.type = stypeDisktree := by
  have hshow : shouldShowDir p.1 = true := (Bool.and_eq_true _ _ ▸ h).1
  exact ⟨And.left, fun htype => ⟨htype, ((shouldShowDir_iff p.1).mp hshow).2⟩⟩

/-- Each listed share that the masked type lets through with other bits set stands
behind as many listed shares as the limit allows. -/
def FlaggedBehindLimit (env : SmbclientEnv) (maxDirCount : ℕ) : Prop :=
  ∀ before p after, env.shares.zipIdx = before ++ p :: after → listable env p = true →
    p.1.type ≠ stypeDisktree → maxDirCount ≤ before.countP (listable env)

theorem enumerated_plain_iff (env : SmbclientEnv) (maxDirCount : ℕ) (h : Enumerated env) :
    (∀ p ∈ exposedShares env maxDirCount, PlainShare p.1) ↔ FlaggedBehindLimit env maxDirCount := by
  rw [exposedShares_enumerated env maxDirCount h, all_take_filter_iff]
  refine ⟨?_, ?_⟩
  · intro hall before p after hsplit hlist htype
    exact hall before p after hsplit hlist fun hplain => htype hplain.1
  · intro hbehind before p after hsplit hlist hplain
    apply hbehind before p after hsplit hlist
    exact fun htype => hplain ((plainShare_iff env p hlist).mpr htype)

/-- Every entry stands for a plain visible share exactly when no share with flag bits
is within the limit. -/
theorem browseDir_plain_iff (env : SmbclientEnv) (maxDirCount : ℕ) (arr : List CJson) :
    (smbcBrowseDir env maxDirCount arr).2 =
        arr ++ (exposedShares env maxDirCount).map (addedObject env) ∧
      ((∀ p ∈ exposedShares env maxDirCount, PlainShare p.1) ↔
        (Enumerated env → FlaggedBehindLimit env maxDirCount)) := by
  refine ⟨smbcBrowseDir_exposed env maxDirCount arr, ?_⟩
  refine ⟨?_, ?_⟩
  · intro hplain henum
    exact (enumerated_plain_iff env maxDirCount henum).mp hplain
  · intro hbehind
    by_cases henum : Enumerated env
    · exact (enumerated_plain_iff env maxDirCount henum).mpr (hbehind henum)
    · rw [exposedShares_failed env maxDirCount henum]
      intro p hp
      cases hp

def hiddenShare : SmbclientEnv :=
  { oneShare with shares := [⟨some (.lit "films"), 0x80000000, none⟩] }

theorem hidden_share_listed :
    (smbcBrowseDir hiddenShare 50 []).2 = (exposedShares hiddenShare 50).map
        (addedObject hiddenShare) ∧
      ¬ ∀ p ∈ exposedShares hiddenShare 50, PlainShare p.1 := by
  refine ⟨smbcBrowseDir_exposed hiddenShare 50 [], fun hplain => ?_⟩
  have hlisted : exposedShares hiddenShare 50 =
      [(⟨some (.lit "films"), 0x80000000, none⟩, 0)] := by rfl
  have htype := (hplain _ (hlisted ▸ List.mem_singleton.mpr rfl)).1
  exact absurd htype (by decide)

/-! ### The listing without failures (util_smbclient.c:151-216) -/

def Visible (dirInfo : ShareInfo) : Prop := dirInfo.type &&& 7 = 0 ∧ ShownName dirInfo

instance : DecidablePred Visible := fun dirInfo =>
  decidable_of_iff (shouldShowDir dirInfo = true) (shouldShowDir_iff dirInfo)

def commentMember : Option CStr → Members
  | none => []
  | some comment => if comment = .empty then [] else [(.lit "comment", .string comment)]

def shareEntry (dirInfo : ShareInfo) : CJson :=
  .object ((.lit "name", .string (dirInfo.name.getD .empty)) :: commentMember dirInfo.comment)

theorem dirObject_allocated (env : SmbclientEnv) (tmp : ℕ) (dirInfo : ShareInfo)
    (alloc : ∀ site, env.json site = true) : dirObject env tmp dirInfo = shareEntry dirInfo := by
  unfold dirObject shareEntry commentMember
  rw [alloc, alloc]
  cases dirInfo.comment with
  | none => rfl
  | some comment =>
    by_cases hempty : comment = .empty
    · simp [hempty, addStringToObject]
    · simp [hempty, addStringToObject]

theorem listable_allocated (env : SmbclientEnv) (alloc : ∀ site, env.json site = true)
    (shares : List ShareInfo) (tmp : ℕ) :
    ((shares.zipIdx tmp).filter (listable env)).map (addedObject env) =
      (shares.filter (Visible ·)).map shareEntry := by
  induction shares generalizing tmp with
  | nil => rfl
  | cons dirInfo rest ih =>
    have hobj := dirObject_allocated env tmp dirInfo alloc
    have hlist : listable env (dirInfo, tmp) = shouldShowDir dirInfo := by
      rw [listable, alloc, Bool.and_true]
    rw [List.zipIdx_cons]
    by_cases hvisible : Visible dirInfo
    · have hshow : listable env (dirInfo, tmp) = true :=
        hlist.trans ((shouldShowDir_iff dirInfo).mpr hvisible)
      rw [List.filter_cons_of_pos hshow, List.filter_cons_of_pos (by simpa using hvisible),
        List.map_cons, List.map_cons, ih, addedObject, hobj]
    · have hhide : ¬ listable env (dirInfo, tmp) = true := by
        rw [hlist]
        exact fun hshow => hvisible ((shouldShowDir_iff dirInfo).mp hshow)
      rw [List.filter_cons_of_neg hhide, List.filter_cons_of_neg (by simpa using hvisible), ih]

/-- The entries are the first visible shares of the table, in its order. -/
theorem browseDir_exact (env : SmbclientEnv) (maxDirCount : ℕ) (arr : List CJson)
    (henum : Enumerated env) (alloc : ∀ site, env.json site = true) :
    (smbcBrowseDir env maxDirCount arr).2 =
      arr ++ ((env.shares.filter (Visible ·)).take maxDirCount).map shareEntry := by
  rw [smbcBrowseDir_exposed, exposedShares_enumerated env maxDirCount henum, List.map_take,
    listable_allocated env alloc, List.map_take]

def mixedShares : SmbclientEnv :=
  { oneShare with
    shares := [⟨some (.lit "ipc"), 3, none⟩, ⟨some (.lit "music"), 0, some (.lit "songs")⟩,
      ⟨some (.lit "admin$"), 0, none⟩, ⟨some (.lit "docs"), 0, some .empty⟩,
      ⟨some (.lit "films"), 0, none⟩] }

theorem two_of_three_listed : (smbcBrowseDir mixedShares 2 []).2 =
    [shareEntry ⟨some (.lit "music"), 0, some (.lit "songs")⟩,
      shareEntry ⟨some (.lit "docs"), 0, some .empty⟩] :=
  browseDir_exact mixedShares 2 [] ⟨rfl, rfl, rfl⟩ fun _ => rfl

end SmbDiscover
