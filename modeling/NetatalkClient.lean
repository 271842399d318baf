import NetatalkClient.Proof.Rename.AnyServer
import NetatalkClient.Proof.Rename.TrueServer
import NetatalkClient.Proof.Login.ServerProof
import NetatalkClient.Proof.Daemon.InSync
import NetatalkClient.Proof.Dsi.Stream
import NetatalkClient.Proof.Dsi.Events
import NetatalkClient.Proof.Dsi.SessionFirst
import NetatalkClient.Proof.Dsi.Replies
import NetatalkClient.Proof.Midlevel.Named
import NetatalkClient.Proof.Midlevel.CacheSound
import NetatalkClient.Proof.Midlevel.Listing
import NetatalkClient.Proof.Midlevel.LockBalance
import NetatalkClient.Proof.Midlevel.Copying
import NetatalkClient.Proof.Fuse.Lifetimes
import NetatalkClient.Proof.Did.Beside
import NetatalkClient.Proof.Url.Compose
import NetatalkClient.Proof.Dsi.OpenSession
import NetatalkClient.Proof.Dsi.Send
import NetatalkClient.Proof.Dsi.Deadline
import NetatalkClient.Proof.Responses
import NetatalkClient.Proof.Did.Static
import NetatalkClient.Proof.Midlevel.Links
import NetatalkClient.Proof.Paging
import NetatalkClient.Proof.Midlevel.AttributeNames
import NetatalkClient.Proof.Midlevel.PseudoFiles
import NetatalkClient.Proof.Dates
import NetatalkClient.Proof.Enumerate
import NetatalkClient.Proof.ServerMessage
import NetatalkClient.Proof.Names.Bounds
import NetatalkClient.Proof.Login.Srp
import NetatalkClient.Proof.Login.Buffers
import NetatalkClient.Proof.Loop
import NetatalkClient.Proof.Fuse.Mount
import NetatalkClient.Proof.Fuse.Clients
import NetatalkClient.Proof.Did.Exact
import NetatalkClient.Proof.Discovery
import NetatalkClient.Proof.Cmdline
