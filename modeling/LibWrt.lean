import LibWrt.PageFrag.Lockstep
import LibWrt.PageFrag.Ranges
import LibWrt.PageFrag.Scenario
import LibWrt.SkbRecycler.Ring
import LibWrt.Rtl83xx.Fdb
import LibWrt.Rtl83xx.Isolation
import LibWrt.Rtl83xx.Mdb
import LibWrt.Rtl83xx.OffloadRun
import LibWrt.Rtl83xx.VlanMst
import LibWrt.MtkBmt.V2Reload
import LibWrt.Nmbm.Reload
import LibWrt.Nmbm.Update
import LibWrt.En75.Correct
import LibWrt.Nvram.Commit
import LibWrt.Routerboot.Partitions
import LibWrt.Routerboot.SoftconfigRun
import LibWrt.Routerboot.Lz77Correct
import LibWrt.Uline.Window
import LibWrt.Uline.ArgEscape
import LibWrt.Map.Sharing
import LibWrt.Tffs.Flash
import LibWrt.Tffs.Segments
import LibWrt.Tffs.Lookup
import LibWrt.Unetmsg.Announce
import LibWrt.Unetmsg.Remote
import LibWrt.Unetmsg.Allowed
import LibWrt.Hostapd.Sequence
import LibWrt.Wireless.Links
import LibWrt.Wireless.Reload
import LibWrt.Wireless.Retry
import LibWrt.Mtd.Placed
import LibWrt.Mtd.ReadBack
import LibWrt.Mtd.Spread
import LibWrt.Mtdsplit.Split
import LibWrt.Mtdsplit.Active
import LibWrt.Bcm4908img.Contained
import LibWrt.Bcm4908img.Create
import LibWrt.Hostapd.ConfigFile
import LibWrt.Supplicant.Daemons
import LibWrt.MtkBmt.Ranges
import LibWrt.PageFrag.Backing
import LibWrt.PageFrag.History
import LibWrt.Nmbm.Passes
import LibWrt.Nmbm.Signature
import LibWrt.Nmbm.Areas
import LibWrt.Nmbm.Unmap
import LibWrt.DlCleanup.Runs
import LibWrt.PackageMetadata.Order
import LibWrt.PackageMetadata.Shape
import LibWrt.PackageMetadata.Version
import LibWrt.Hostapd.MacaddrExact
import LibWrt.Routerboot.Rle
import LibWrt.Routerboot.Count
import LibWrt.SkbRecycler.ListFast
import LibWrt.Rtl83xx.Lag
import LibWrt.MtkBmt.Copy
import LibWrt.Rtl83xx.HostRoute
import LibWrt.Rtl83xx.L2Row
import LibWrt.Nvram.Tool
import LibWrt.En75.Factory
import LibWrt.En75.Stored
import LibWrt.Mtd.Fis
import LibWrt.Mtd.Jffs2Scan
import LibWrt.Mtd.Fixtrx
import LibWrt.Tffs.Reader
import LibWrt.Map.Bounds
import LibWrt.Unetmsg.FanOut
import LibWrt.Hostapd.Rename
import LibWrt.Kconfig.Menuconfig
