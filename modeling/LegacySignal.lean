import LegacySignal.Data.Contacts
import LegacySignal.Sync.Service
import LegacySignal.Sync.MessageText
import LegacySignal.Sync.ThreadName
import LegacySignal.Sync.Acknowledgement
import LegacySignal.Sync.RefreshLoop
import LegacySignal.Protocol.Interleaving
import LegacySignal.Protocol.SavedIdentity
import LegacySignal.Protocol.RecordHistory
import LegacySignal.Protocol.SkippedKeys
import LegacySignal.Protocol.Work
import LegacySignal.Protocol.FirstContact
import LegacySignal.Account.LoggedIn
import LegacySignal.Data.Screens
import LegacySignal.Group.Reordering
import LegacySignal.Sealed.Grammar
import LegacySignal.Data.AttachmentFormats
import LegacySignal.Data.ProfileCipher
import LegacySignal.Send.Agreement
import LegacySignal.Send.Reach
import LegacySignal.KeyTransparency.Signatures
import LegacySignal.KeyTransparency.Pointers
import LegacySignal.KeyTransparency.SearchTruth
import LegacySignal.KeyTransparency.AppendOnly
import LegacySignal.KeyTransparency.GuidedSearch
import LegacySignal.KeyTransparency.MonitoringPath
import LegacySignal.Api.TrustManager
