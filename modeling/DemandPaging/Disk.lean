import DemandPaging.PageBytes
import DemandPaging.Panic
import DemandPaging.Table

/-! A disk of numbered sectors, all zero at first. Every access names a sector that exists. -/

namespace DemandPaging

structure Disk where
  sectorCount : Nat
  written : Table Nat Sector

namespace Disk

def ofSize (sectors : Nat) : Disk := ⟨sectors, ∅⟩

def sector (disk : Disk) (n : Nat) : Sector := (disk.written.find? n).getD Sector.zero

def readSector (disk : Disk) (n : Nat) : Except Panic Sector :=
  if n < disk.sectorCount then .ok (disk.sector n)
  else .error (.sectorOutOfRange disk.sectorCount n)

def writeSector (disk : Disk) (n : Nat) (bytes : Sector) : Except Panic Disk :=
  if n < disk.sectorCount then .ok { disk with written := disk.written.insert n bytes }
  else .error (.sectorOutOfRange disk.sectorCount n)

def readSectors (disk : Disk) : (first count : Nat) → Except Panic (List Sector)
  | _, 0 => .ok []
  | first, count + 1 =>
      match disk.readSector first with
      | .error e => .error e
      | .ok bytes =>
          match disk.readSectors (first + 1) count with
          | .error e => .error e
          | .ok rest => .ok (bytes :: rest)

def writeSectors (disk : Disk) : (first : Nat) → List Sector → Except Panic Disk
  | _, [] => .ok disk
  | first, bytes :: rest =>
      match disk.writeSector first bytes with
      | .error e => .error e
      | .ok disk => disk.writeSectors (first + 1) rest

def dump (disk : Disk) : Array UInt8 :=
  (List.range disk.sectorCount).foldl (fun bytes n => bytes ++ Sector.toArray (disk.sector n)) #[]

end Disk

end DemandPaging
